import OnAir.Proofs.Placement
import OnAir.Proofs.Session

set_option autoImplicit false

namespace OnAir

variable {rundown changed : Rundown} {upkeep : Upkeep}

def Upkeep.StartsIn (rundown : Rundown) : Upkeep → Prop
  | recompute start _ _ => ∀ line ∈ start, (rundown.line? line).isSome
  | forget _ => True

theorem Upkeep.startsIn_some {line : Id .line} {mode : Mode} {removed : List (Id .line)}
    (h : (rundown.line? line).isSome) : (recompute (some line) mode removed).StartsIn rundown :=
  fun _ hm => Option.mem_some_iff.mp hm ▸ h

theorem Rundown.Sound.item (sound : rundown.Sound) {line : Line} (hl : line ∈ rundown.lines)
    {item : Item} (hi : item ∈ line.items) : item.sound = .ok () :=
  Item.sound_eq_ok_iff.mpr (sound.durations line hl item hi)

namespace Change

theorem onItem_made (distinct : rundown.Distinct) {id : Id .item}
    {check : Item → Except Fault Unit} {f : Item → Item} {line : Id .line}
    (h : (onItem id check f).apply rundown = (.ok line, changed)) :
    (rundown.item? id).isSome ∧ changed = rundown.setItem id f := by
  rw [apply_onItem distinct] at h
  split at h
  · cases h
  · next hitem =>
    split at h
    · cases h
    · cases h
      exact ⟨hitem ▸ rfl, rfl⟩

theorem onLine_made (distinct : rundown.Distinct) {id : Id .line} {f : Line → Line}
    (h : (onLine id f).apply rundown = (.ok (), changed)) :
    (rundown.line? id).isSome ∧ changed = rundown.setLine id f := by
  rw [apply_onLine distinct] at h
  split at h
  · cases h
  · next hline =>
    cases h
    exact ⟨hline ▸ rfl, rfl⟩

theorem removeItem_made (distinct : rundown.Distinct) {id : Id .item} {removed : Id .line × Item}
    (h : (removeItem id).apply rundown = (.ok removed, changed)) :
    (rundown.item? id).isSome ∧ changed = rundown.withoutItem id := by
  rw [apply_removeItem distinct] at h
  split at h
  · cases h
  · next hitem =>
    cases h
    exact ⟨hitem ▸ rfl, rfl⟩

theorem removeLine_made (distinct : rundown.Distinct) {id : Id .line} {line : Line}
    (h : (removeLine id).apply rundown = (.ok line, changed)) :
    (rundown.line? id).isSome ∧ changed = rundown.withoutLine id := by
  rw [apply_removeLine distinct] at h
  split at h
  · cases h
  · next hline =>
    cases h
    exact ⟨hline ▸ rfl, rfl⟩

theorem insertLine_made (distinct : rundown.Distinct) {id : Id .segment} {index : Nat} {line : Line}
    (h : (insertLine id index line).apply rundown = (.ok (), changed)) :
    (rundown.segment? id).isSome ∧ changed = rundown.withLine id index line := by
  rw [apply_insertLine distinct] at h
  split at h
  · cases h
  · split at h
    · cases h
    · next hsegment =>
      cases h
      exact ⟨hsegment ▸ rfl, rfl⟩

end Change

namespace Edit

theorem made_of_change {edit : Edit} (distinct : rundown.Distinct)
    (h : edit.change.apply rundown = (.ok upkeep, changed)) (started : upkeep.StartsIn changed) :
    edit.Refers rundown ∧ changed = edit.made rundown := by
  cases edit with
  | setItemDuration id duration =>
    obtain ⟨line, hitem, rfl⟩ := Change.map_ok h
    exact Change.onItem_made distinct hitem
  | setItemReach id reach =>
    obtain ⟨line, hitem, rfl⟩ := Change.map_ok h
    exact Change.onItem_made distinct hitem
  | setItemContent id content =>
    obtain ⟨line, hitem, rfl⟩ := Change.map_ok h
    exact Change.onItem_made distinct hitem
  | insertItem line item =>
    obtain ⟨_, _, hsound, h⟩ := Change.bind_ok h
    obtain ⟨-, rfl⟩ := Change.ofExcept_ok hsound
    obtain ⟨r, _, hget, h⟩ := Change.bind_ok h
    obtain ⟨rfl, rfl⟩ := Change.get_ok hget
    dsimp only at h
    split at h
    · obtain ⟨_, _, hthrow, -⟩ := Change.bind_ok h
      exact (Change.throw_ok hthrow).elim
    · obtain ⟨_, hline, rfl⟩ := Change.map_ok h
      exact Change.onLine_made distinct hline
  | removeItem id =>
    obtain ⟨⟨line, item⟩, hremove, rfl⟩ := Change.map_ok h
    exact Change.removeItem_made distinct hremove
  | setLineDuration line duration =>
    obtain ⟨_, hline, rfl⟩ := Change.map_ok h
    exact Change.onLine_made distinct hline
  | insertLine segment index line =>
    obtain ⟨_, _, hsound, h⟩ := Change.bind_ok h
    obtain ⟨-, rfl⟩ := Change.ofExcept_ok hsound
    obtain ⟨_, hinsert, rfl⟩ := Change.map_ok h
    exact Change.insertLine_made distinct hinsert
  | removeLine line =>
    obtain ⟨⟨order, index⟩, _, hlocate, h⟩ := Change.bind_ok h
    obtain ⟨rfl, -⟩ := Change.locate_ok hlocate
    obtain ⟨removed, rest, hremove, h⟩ := Change.bind_ok h
    have hrest : rest = changed := by
      split at h
      · exact (Change.pure_ok h).2
      · exact (Change.pure_ok h).2
    exact Change.removeLine_made distinct (hrest ▸ hremove)
  | moveLine line segment index =>
    obtain ⟨⟨_, old⟩, _, hlocate, h⟩ := Change.bind_ok h
    obtain ⟨rfl, -⟩ := Change.locate_ok hlocate
    obtain ⟨_, moved, hmove, h⟩ := Change.bind_ok h
    obtain ⟨⟨order, new⟩, _, hlocate', h⟩ := Change.bind_ok h
    obtain ⟨rfl, -⟩ := Change.locate_ok hlocate'
    obtain ⟨-, rfl⟩ := Change.pure_ok h
    rw [Change.apply_moveLine distinct] at hmove
    split at hmove
    · cases hmove
    · next hsegment =>
      split at hmove
      · cases hmove
      · next hline =>
        cases hmove
        rw [made, hline]
        exact ⟨⟨hline ▸ rfl, hsegment ▸ rfl⟩, rfl⟩
  | recompute start runToEnd =>
    obtain ⟨rfl, rfl⟩ := Change.pure_ok h
    exact ⟨started, rfl⟩

end Edit

namespace Rundown

theorem mem_setItem {line : Line} (hl : line ∈ rundown.lines) {item : Item}
    (hi : item ∈ line.items) (f : Item → Item) :
    ∃ line' ∈ (rundown.setItem item.id f).lines, f item ∈ line'.items := by
  rw [setItem, lines_reitem]
  refine ⟨_, List.mem_map_of_mem hl, List.mem_map.mpr ⟨item, hi, ?_⟩⟩
  exact if_pos rfl

theorem mem_setLine {line : Line} (hl : line ∈ rundown.lines) (f : Line → Line) :
    f line ∈ (rundown.setLine line.id f).lines := by
  rw [lines_setLine]
  exact List.mem_map.mpr ⟨line, hl, if_pos rfl⟩

theorem item?_eq_none_of_appended {id : Id .line} {item : Item}
    (distinct : (rundown.setLine id fun line => { line with items := line.items ++ [item] }).Distinct)
    (h : (rundown.line? id).isSome) : rundown.item? item.id = none := by
  refine Option.eq_none_iff_forall_ne_some.mpr fun ⟨owner, found⟩ hfound => ?_
  obtain ⟨target, hline⟩ := Option.isSome_iff_exists.mp h
  obtain ⟨htarget, rfl⟩ := mem_of_line? hline
  obtain ⟨howner, hitem, hid⟩ := mem_of_item? hfound
  have hnodup := distinct.items
  rw [lines_setLine, List.flatMap_map] at hnodup
  have hold : item.id ∈ owner.items.map (·.id) := hid ▸ List.mem_map_of_mem hitem
  have htwice := eq_of_mem_flatMap (b := item.id) hnodup howner htarget (by
    split
    · rw [List.map_append]
      exact List.mem_append_left _ hold
    · exact hold) (by
    rw [if_pos rfl, List.map_append]
    exact List.mem_append_right _ List.mem_cons_self)
  subst htwice
  have hline := (List.nodup_flatMap.mp hnodup).1 owner howner
  rw [if_pos rfl, List.map_append, List.nodup_append] at hline
  exact hline.2.2 item.id hold item.id List.mem_cons_self rfl

theorem line?_eq_none_of_inserted (distinct : rundown.Distinct) {id : Id .segment} {index : Nat}
    {line : Line} (distinct' : (rundown.withLine id index line).Distinct)
    (h : (rundown.segment? id).isSome) : rundown.line? line.id = none := by
  obtain ⟨segment, hsegment⟩ := Option.isSome_iff_exists.mp h
  have hmodify := modifySegment?_eq distinct id index line
  rw [hsegment] at hmodify
  obtain ⟨-, before, _, after, hold, hnew⟩ := (insertAt_eq_some hmodify).extendedBy
  have hnodup := distinct'.lineIds_nodup hnew
  rw [List.map_append, List.map_cons, List.perm_middle.nodup_iff, List.nodup_cons,
    ← List.map_append, ← hold, map_lineId_spots, ← isSome_line?] at hnodup
  exact Option.not_isSome_iff_eq_none.mp hnodup.1

end Rundown

namespace Edit

theorem onItem_of_sound (distinct : rundown.Distinct) {id : Id .item} {f : Item → Item}
    (check : Item → Except Fault Unit)
    (refers : (rundown.item? id).isSome) (sound : (rundown.setItem id f).Sound)
    (hcheck : ∀ item, item.id = id → (f item).sound = .ok () → check item = .ok ()) :
    ∃ line, (Change.onItem id check f).apply rundown = (.ok line, rundown.setItem id f) ∧
      ((rundown.setItem id f).line? line).isSome := by
  obtain ⟨⟨line, item⟩, hfound⟩ := Option.isSome_iff_exists.mp refers
  obtain ⟨hline, hitem, rfl⟩ := Rundown.mem_of_item? hfound
  obtain ⟨line', hline', hitem'⟩ := Rundown.mem_setItem hline hitem f
  refine ⟨line.id, ?_, ?_⟩
  · rw [Change.apply_onItem distinct, hfound]
    dsimp only
    rw [hcheck item rfl (sound.item hline' hitem')]
  · rw [Rundown.setItem, Rundown.isSome_line?_reitem, Rundown.isSome_line?]
    exact List.mem_map_of_mem hline

theorem onLine_of_refers (distinct : rundown.Distinct) {id : Id .line} (f : Line → Line)
    (hf : ∀ line, (f line).id = line.id) (refers : (rundown.line? id).isSome) :
    (Change.onLine id f).apply rundown = (.ok (), rundown.setLine id f) ∧
      ((rundown.setLine id f).line? id).isSome := by
  obtain ⟨line, hfound⟩ := Option.isSome_iff_exists.mp refers
  rw [Change.apply_onLine distinct, hfound, rundown.isSome_line?_setLine id hf, hfound]
  exact ⟨rfl, rfl⟩

theorem locate_of_refers (distinct : rundown.Distinct) {id : Id .line}
    (refers : (rundown.line? id).isSome) (absent : Fault) :
    ∃ index, (Change.locate id absent).apply rundown =
      (.ok (⟨rundown.spots⟩, index), rundown) := by
  obtain ⟨index, hindex⟩ := Option.isSome_iff_exists.mp
    ((RunningOrder.isSome_index? rundown id).trans refers)
  rw [Change.apply_locate distinct, hindex]
  exact ⟨index, rfl⟩

theorem insertItem_of_refers (distinct : rundown.Distinct) {id : Id .line} {item : Item}
    (refers : (rundown.line? id).isSome) (sound : ((insertItem id item).made rundown).Sound) :
    ∃ upkeep, (insertItem id item).change.apply rundown =
        (.ok upkeep, (insertItem id item).made rundown) ∧
      upkeep.StartsIn ((insertItem id item).made rundown) := by
  obtain ⟨happly, hstart⟩ := onLine_of_refers distinct
    (fun line => { line with items := line.items ++ [item] }) (fun _ => rfl) refers
  obtain ⟨line, hfound⟩ := Option.isSome_iff_exists.mp refers
  obtain ⟨hline, rfl⟩ := Rundown.mem_of_line? hfound
  have hitem : item.sound = .ok () := sound.item (Rundown.mem_setLine hline _)
    (List.mem_append_right line.items (List.mem_singleton.mpr rfl))
  have hnew := Rundown.item?_eq_none_of_appended sound.toDistinct refers
  refine ⟨.suffix line.id, ?_, Upkeep.startsIn_some hstart⟩
  rw [change, hitem, Change.bind_of_ok (Change.apply_ofExcept ..),
    Change.bind_of_ok (Change.apply_get rundown), hnew]
  exact Change.bind_of_ok happly _

theorem insertLine_of_refers (distinct : rundown.Distinct) {id : Id .segment} {index : UInt64}
    {line : Line} (refers : (rundown.segment? id).isSome)
    (sound : ((insertLine id index line).made rundown).Sound) :
    ∃ upkeep, (insertLine id index line).change.apply rundown =
        (.ok upkeep, (insertLine id index line).made rundown) ∧
      upkeep.StartsIn ((insertLine id index line).made rundown) := by
  have hline := Rundown.mem_withLine refers index.toNat line
  have hitems : line.items.forM Item.sound = .ok () :=
    forM_eq_ok_iff.mpr fun item hi => sound.item hline hi
  have hnew := Rundown.line?_eq_none_of_inserted distinct sound.toDistinct refers
  obtain ⟨segment, hfound⟩ := Option.isSome_iff_exists.mp refers
  refine ⟨.runToEnd (some line.id), ?_, Upkeep.startsIn_some ?_⟩
  · rw [change, hitems, Change.bind_of_ok (Change.apply_ofExcept ..), Change.apply_bind,
      Change.apply_insertLine distinct, hnew, hfound]
    rfl
  · exact Rundown.isSome_line?.mpr (List.mem_map_of_mem hline)

theorem removeLine_of_refers (distinct : rundown.Distinct) {id : Id .line}
    (refers : (rundown.line? id).isSome) :
    ∃ upkeep, (removeLine id).change.apply rundown = (.ok upkeep, (removeLine id).made rundown) ∧
      upkeep.StartsIn ((removeLine id).made rundown) := by
  obtain ⟨index, hlocate⟩ := locate_of_refers distinct refers (.notFound id.name)
  obtain ⟨line, hfound⟩ := Option.isSome_iff_exists.mp refers
  have hremove := Change.apply_removeLine distinct id
  rw [hfound] at hremove
  have happly : (removeLine id).change.apply rundown = Change.apply _ _ :=
    (Change.bind_of_ok hlocate _).trans (Change.bind_of_ok hremove _)
  cases hnext : RunningOrder.spot? ⟨rundown.spots⟩ (index + 1) with
  | none =>
    rw [hnext] at happly
    exact ⟨.forget id, happly, trivial⟩
  | some next =>
    rw [hnext] at happly
    refine ⟨_, happly, Upkeep.startsIn_some ?_⟩
    have effect := effect_removeLine happly
    generalize hstart : some next.line.id = start at effect
    cases effect with
    | lineRemoved frame old new =>
      rw [made, Rundown.isSome_line?, ← Rundown.map_lineId_spots, new, List.map_append,
        Option.some.inj hstart]
      exact List.mem_append_right _ List.mem_cons_self

theorem apply_moveLine_of_refers (distinct : rundown.Distinct) {id : Id .line}
    {segment : Id .segment} (hline : (rundown.line? id).isSome)
    (hsegment : (rundown.segment? segment).isSome) (index : UInt64) :
    (Change.moveLine id segment index.toNat).apply rundown =
      (.ok (), (moveLine id segment index).made rundown) := by
  obtain ⟨line, hfound⟩ := Option.isSome_iff_exists.mp hline
  obtain ⟨target, htarget⟩ := Option.isSome_iff_exists.mp hsegment
  rw [Change.apply_moveLine distinct, htarget, made, hfound]

theorem moveLine_of_refers (distinct : rundown.Distinct) {id : Id .line} {segment : Id .segment}
    {index : UInt64} (hline : (rundown.line? id).isSome) (hsegment : (rundown.segment? segment).isSome)
    (sound : ((moveLine id segment index).made rundown).Sound) :
    ∃ upkeep, (moveLine id segment index).change.apply rundown =
        (.ok upkeep, (moveLine id segment index).made rundown) ∧
      upkeep.StartsIn ((moveLine id segment index).made rundown) := by
  have hmove := apply_moveLine_of_refers distinct hline hsegment index
  obtain ⟨line, rest, rfl, -, put⟩ := Change.moveLine_ok hmove
  have hback : line.id ∈ ((moveLine line.id segment index).made rundown).lines.map (·.id) :=
    List.count_pos_iff.mp (put.count_line ▸ Nat.succ_pos _)
  obtain ⟨old, hlocate⟩ := locate_of_refers distinct hline (.notFound line.id.name)
  obtain ⟨new, hlocate'⟩ := locate_of_refers sound.toDistinct
    (Rundown.isSome_line?.mpr hback) (.lostWhileMoving line.id)
  refine ⟨_, (Change.bind_of_ok hlocate _).trans
    ((Change.bind_of_ok hmove _).trans (Change.bind_of_ok hlocate' _)), fun start hstart => ?_⟩
  obtain ⟨spot, hspot, rfl⟩ := Option.map_eq_some_iff.mp hstart
  exact Rundown.isSome_line?.mpr
    (List.mem_map_of_mem (Rundown.line_mem (List.mem_of_getElem? hspot)))

theorem change_of_refers {edit : Edit} (distinct : rundown.Distinct) (refers : edit.Refers rundown)
    (sound : (edit.made rundown).Sound) :
    ∃ upkeep, edit.change.apply rundown = (.ok upkeep, edit.made rundown) ∧
      upkeep.StartsIn (edit.made rundown) := by
  cases edit with
  | setItemDuration id duration =>
    obtain ⟨line, happly, hline⟩ := onItem_of_sound distinct
      (fun item => item.reach.allow id duration) refers sound fun item hid h => hid ▸ h
    exact ⟨.suffix line, Change.bind_of_ok happly _, Upkeep.startsIn_some hline⟩
  | setItemReach id reach =>
    obtain ⟨line, happly, hline⟩ := onItem_of_sound distinct
      (fun item => reach.allow id item.duration) refers sound fun item hid h => hid ▸ h
    exact ⟨.suffix line, Change.bind_of_ok happly _, Upkeep.startsIn_some hline⟩
  | setItemContent id content =>
    obtain ⟨line, happly, hline⟩ := onItem_of_sound distinct (fun _ => .ok ()) refers sound
      fun _ _ _ => rfl
    exact ⟨.suffix line, Change.bind_of_ok happly _, Upkeep.startsIn_some hline⟩
  | insertItem id item => exact insertItem_of_refers distinct refers sound
  | removeItem id =>
    obtain ⟨⟨line, item⟩, hfound⟩ := Option.isSome_iff_exists.mp refers
    have hremove := Change.apply_removeItem distinct id
    rw [hfound] at hremove
    refine ⟨.suffix line.id, Change.bind_of_ok hremove _, Upkeep.startsIn_some ?_⟩
    rw [made, Rundown.withoutItem, Rundown.isSome_line?_reitem, Rundown.isSome_line?]
    exact List.mem_map_of_mem (Rundown.mem_of_item? hfound).1
  | setLineDuration id duration =>
    obtain ⟨happly, hline⟩ := onLine_of_refers distinct (fun line => { line with duration })
      (fun _ => rfl) refers
    exact ⟨.suffix id, Change.bind_of_ok happly _, Upkeep.startsIn_some hline⟩
  | insertLine segment index line => exact insertLine_of_refers distinct refers sound
  | removeLine id => exact removeLine_of_refers distinct refers
  | moveLine id segment index => exact moveLine_of_refers distinct refers.1 refers.2 sound
  | recompute start runToEnd => exact ⟨_, rfl, refers⟩

end Edit

namespace Publisher

theorem startIndex_ok_iff {start : Option (Id .line)} :
    (∃ index, startIndex ⟨rundown.spots⟩ start = .ok index) ↔
      ∀ line ∈ start, (rundown.line? line).isSome := by
  cases start with
  | none =>
    refine ⟨fun _ line hm => ?_, fun _ => ⟨0, rfl⟩⟩
    cases hm
  | some id =>
    simp only [Option.mem_some_iff, forall_eq', ← RunningOrder.isSome_index?, startIndex]
    cases RunningOrder.index? ⟨rundown.spots⟩ id with
    | none =>
      constructor
      · rintro ⟨_, h⟩
        cases h
      · intro h
        cases h
    | some index => exact ⟨fun _ => rfl, fun _ => ⟨index, rfl⟩⟩

end Publisher

namespace Session

variable {publisher result : Publisher} {report : Report} {session : Session}

theorem startsIn_of_keepUp {token : Token}
    (h : keepUp publisher changed token upkeep = (.ok report, result)) :
    upkeep.StartsIn changed := by
  cases upkeep with
  | recompute start mode removed =>
    obtain ⟨-, index, -, -, hi, -, -⟩ := Publisher.update_ok h
    exact Publisher.startIndex_ok_iff.mp ⟨index, hi⟩
  | forget line => trivial

theorem keepUp_of_sound (current : publisher.board.Current rundown)
    (effect : Edit.Effect rundown changed upkeep) (sound : changed.Sound)
    (started : upkeep.StartsIn changed) :
    ∃ report result, keepUp publisher changed .unset upkeep = (.ok report, result) := by
  cases upkeep with
  | recompute start mode removed =>
    obtain ⟨index, hi⟩ := Publisher.startIndex_ok_iff.mpr started
    obtain ⟨report, result, h, -⟩ :=
      Publisher.update_of_reworked sound current hi (effect.reworked sound.toDistinct hi)
    exact ⟨report, result, h⟩
  | forget line => exact ⟨_, _, rfl⟩

theorem start_ok_iff {settings : Settings} :
    (∃ session, start rundown settings = .ok session) ↔ rundown.Sound := by
  constructor
  · rintro ⟨session, h⟩
    obtain ⟨-, report, hrun⟩ := start_ok h
    exact (Rundown.fullRun_ok hrun).1
  · intro sound
    obtain ⟨report, full, hrun, -⟩ := Rundown.fullRun_of_sound sound settings
    rw [Rundown.fullRun] at hrun
    rw [start, hrun]
    exact ⟨_, rfl⟩

theorem Coherent.made_of_ok (h : session.Coherent) {edit : Edit}
    (hreport : (session.apply edit .unset).1 = .ok report) :
    edit.Refers session.rundown ∧ (edit.made session.rundown).Sound ∧
      (session.apply edit .unset).2.rundown = edit.made session.rundown := by
  obtain ⟨upkeep, hchange, hkeep⟩ := apply_of_ok hreport
  have sound := (keepUp_current h.sound h.current (Edit.effect_of_change hchange) hkeep).1
  obtain ⟨refers, hmade⟩ :=
    Edit.made_of_change h.sound.toDistinct hchange (startsIn_of_keepUp hkeep)
  exact ⟨refers, hmade ▸ sound, hmade⟩

theorem Coherent.ok_of_made (h : session.Coherent) {edit : Edit}
    (refers : edit.Refers session.rundown) (sound : (edit.made session.rundown).Sound) :
    ∃ report, (session.apply edit .unset).1 = .ok report := by
  obtain ⟨upkeep, hchange, started⟩ := Edit.change_of_refers h.sound.toDistinct refers sound
  obtain ⟨report, result, hkeep⟩ :=
    keepUp_of_sound h.current (Edit.effect_of_change hchange) sound started
  rw [apply, hchange]
  dsimp only
  rw [hkeep]
  exact ⟨report, rfl⟩

/-- However a session was edited before, it accepts an edit exactly if all that the edit names is
there and a session can be opened on what the edit makes of the rundown. It then holds just that. -/
theorem apply_ok_iff_start {settings : Settings} (h : start rundown settings = .ok session)
    (edits : List (Edit × Token)) (edit : Edit) (settings' : Settings) :
    let here := (session.run edits).2
    ((∃ report, (here.apply edit .unset).1 = .ok report) ↔
      edit.Refers here.rundown ∧ ∃ fresh, start (edit.made here.rundown) settings' = .ok fresh) ∧
    ∀ report, (here.apply edit .unset).1 = .ok report →
      (here.apply edit .unset).2.rundown = edit.made here.rundown := by
  intro here
  have coherent : here.Coherent := run_coherent (start_coherent h) edits
  refine ⟨⟨fun ⟨report, hreport⟩ => ?_, fun ⟨refers, hstart⟩ => ?_⟩, fun report hreport => ?_⟩
  · obtain ⟨refers, sound, -⟩ := coherent.made_of_ok hreport
    exact ⟨refers, start_ok_iff.mpr sound⟩
  · exact coherent.ok_of_made refers (start_ok_iff.mp hstart)
  · exact (coherent.made_of_ok hreport).2.2

theorem apply_bulletin_ok_iff_start :
    let session : Session := ⟨Rundown.bulletin, (Rundown.bulletin.fullRun .standard).2⟩
    let here := (session.run [(.removeLine ⟨"weather"⟩, .unset)]).2
    let edit : Edit := .moveLine ⟨"headlines"⟩ ⟨"outlook"⟩ 7
    start Rundown.bulletin .standard = .ok session ∧
      (∃ report, (here.apply edit .unset).1 = .ok report) ∧
      (here.apply edit .unset).2.rundown = edit.made here.rundown ∧
      (edit.made here.rundown).lines.map (·.id) = [⟨"report"⟩, ⟨"headlines"⟩] := by
  intro session here edit
  obtain ⟨accepted, made⟩ :=
    apply_ok_iff_start start_bulletin [(.removeLine ⟨"weather"⟩, .unset)] edit ⟨0, false⟩
  have refers : edit.Refers here.rundown := ⟨by decide +kernel, by decide +kernel⟩
  have sound : (edit.made here.rundown).Sound :=
    ⟨⟨by decide +kernel, by decide +kernel, by decide +kernel, by decide +kernel⟩,
      by decide +kernel, by decide +kernel⟩
  obtain ⟨report, hreport⟩ := accepted.mpr ⟨refers, start_ok_iff.mpr sound⟩
  exact ⟨start_bulletin, ⟨report, hreport⟩, made report hreport, by decide +kernel⟩

end Session

end OnAir
