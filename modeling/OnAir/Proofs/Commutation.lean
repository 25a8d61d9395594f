import OnAir.Proofs.Acceptance

set_option autoImplicit false

/-!
Edits of different things. An edit that sets something on one item or line, or takes an item away, is
allowed or refused for what it finds there, and leaves all else as it is. So two of them that name
different things come to the same in either order.
-/
namespace OnAir

variable {rundown : Rundown} {a b edit : Edit}

namespace Edit

def target? : Edit → Option Name
  | setItemDuration id _ | setItemReach id _ | setItemContent id _ | removeItem id => some id.name
  | setLineDuration id _ => some id.name
  | _ => none

def itemChange? : Edit → Option (Id .item × (Item → Option Item))
  | setItemDuration id duration => some (id, fun item => some { item with duration })
  | setItemReach id reach => some (id, fun item => some { item with reach })
  | setItemContent id content => some (id, fun item => some { item with content })
  | removeItem id => some (id, fun _ => none)
  | _ => none

def onItem? (edit : Edit) (item : Item) : Option Item :=
  match edit.itemChange? with
  | some (id, left) => if item.id = id then left item else some item
  | none => some item

def durationOf : Edit → Line → UInt64
  | setLineDuration id duration, line => if line.id = id then duration else line.duration
  | _, line => line.duration

def onLine (edit : Edit) (line : Line) : Line :=
  { line with duration := edit.durationOf line, items := line.items.filterMap edit.onItem? }

theorem target?_of_itemChange? {id : Id .item} {left : Item → Option Item}
    (h : edit.itemChange? = some (id, left)) : edit.target? = some id.name := by
  cases edit <;> cases h <;> rfl

theorem kept_of_itemChange? {id : Id .item} {left : Item → Option Item}
    (h : edit.itemChange? = some (id, left)) {item found : Item} (hleft : left item = some found) :
    found.id = item.id ∧ found.layer = item.layer := by
  cases edit <;> cases h <;> cases hleft <;> exact ⟨rfl, rfl⟩

theorem onItem?_of_ne {item : Item} (h : edit.target? ≠ some item.id.name) :
    edit.onItem? item = some item := by
  rw [onItem?]
  split
  · next id left hchange =>
    exact if_neg fun heq : item.id = id => h (heq ▸ target?_of_itemChange? hchange)
  · rfl

/-- What is left of an item is the item, unless it is the one that the edit changes. -/
theorem onItem?_eq_some {item found : Item} (h : edit.onItem? item = some found) :
    found = item ∨ ∃ left, edit.itemChange? = some (item.id, left) ∧ left item = some found := by
  rw [onItem?] at h
  split at h
  · next id left hchange =>
    split at h
    · next hid =>
      subst hid
      exact .inr ⟨left, hchange, h⟩
    · exact .inl (Option.some.inj h).symm
  · exact .inl (Option.some.inj h).symm

theorem kept_of_onItem? {item found : Item} (h : edit.onItem? item = some found) :
    found.id = item.id ∧ found.layer = item.layer := by
  rcases onItem?_eq_some h with rfl | ⟨left, hchange, hleft⟩
  · exact ⟨rfl, rfl⟩
  · exact kept_of_itemChange? hchange hleft

theorem onItem?_comm (h : a.target? ≠ b.target?) (item : Item) :
    (a.onItem? item).bind b.onItem? = (b.onItem? item).bind a.onItem? := by
  have aside {a b : Edit} (hb : b.target? ≠ some item.id.name) :
      (a.onItem? item).bind b.onItem? = (b.onItem? item).bind a.onItem? := by
    rw [onItem?_of_ne hb, Option.bind_some]
    cases ha : a.onItem? item with
    | none => rfl
    | some left => exact onItem?_of_ne ((kept_of_onItem? ha).1 ▸ hb)
  by_cases hb : b.target? = some item.id.name
  · exact (aside (hb ▸ h)).symm
  · exact aside hb

theorem durationOf_of_ne {line : Line} (h : edit.target? ≠ some line.id.name) :
    edit.durationOf line = line.duration := by
  cases edit with
  | setLineDuration id duration => exact if_neg fun heq : line.id = id => h (heq ▸ rfl)
  | _ => rfl

theorem durationOf_congr {line line' : Line} (hid : line.id = line'.id)
    (h : line.duration = line'.duration) : edit.durationOf line = edit.durationOf line' := by
  cases edit with
  | setLineDuration id duration => rw [durationOf, durationOf, hid, h]
  | _ => exact h

theorem durationOf_onLine_comm (h : a.target? ≠ b.target?) (line : Line) :
    b.durationOf (a.onLine line) = a.durationOf (b.onLine line) := by
  have aside {a b : Edit} (hb : b.target? ≠ some line.id.name) :
      b.durationOf (a.onLine line) = a.durationOf (b.onLine line) := by
    have hkept : b.durationOf (a.onLine line) = (a.onLine line).duration := durationOf_of_ne hb
    exact hkept.trans (durationOf_congr rfl (durationOf_of_ne hb).symm)
  by_cases hb : b.target? = some line.id.name
  · exact (aside (hb ▸ h)).symm
  · exact aside hb

theorem onLine_comm (h : a.target? ≠ b.target?) (line : Line) :
    b.onLine (a.onLine line) = a.onLine (b.onLine line) := by
  have hitems : (line.items.filterMap a.onItem?).filterMap b.onItem? =
      (line.items.filterMap b.onItem?).filterMap a.onItem? := by
    rw [List.filterMap_filterMap, List.filterMap_filterMap]
    exact List.filterMap_congr fun item _ => onItem?_comm h item
  calc b.onLine (a.onLine line)
      = ⟨line.id, line.title, b.durationOf (a.onLine line),
          (line.items.filterMap a.onItem?).filterMap b.onItem?⟩ := rfl
    _ = a.onLine (b.onLine line) := by rw [durationOf_onLine_comm h, hitems]; rfl

theorem onItem?_of_itemChange? {id : Id .item} {left : Item → Option Item}
    (h : edit.itemChange? = some (id, left)) (item : Item) :
    edit.onItem? item = if item.id = id then left item else some item := by
  rw [onItem?, h]

theorem made_eq {name : Name} (h : edit.target? = some name) (rundown : Rundown) :
    edit.made rundown = rundown.eachLine edit.onLine := by
  have reitem {change : List Item → List Item} (hitems : List.filterMap edit.onItem? = change)
      (hd : ∀ line, edit.durationOf line = line.duration) :
      rundown.reitem change = rundown.eachLine edit.onLine := by
    have honLine : edit.onLine = fun line => { line with items := change line.items } :=
      funext fun line => by rw [onLine, hitems, hd]
    rw [honLine]
    rfl
  have set {id : Id .item} {f : Item → Item}
      (hchange : edit.itemChange? = some (id, fun item => some (f item))) :
      List.filterMap edit.onItem? = List.map fun item => if item.id = id then f item else item := by
    rw [← List.filterMap_eq_map]
    refine congrArg List.filterMap (funext fun item => ?_)
    rw [onItem?_of_itemChange? hchange, Function.comp_apply, apply_ite some]
  cases edit with
  | setItemDuration => exact reitem (set rfl) fun _ => rfl
  | setItemReach => exact reitem (set rfl) fun _ => rfl
  | setItemContent => exact reitem (set rfl) fun _ => rfl
  | removeItem id =>
    refine reitem ?_ fun _ => rfl
    rw [← List.filterMap_eq_filter]
    refine congrArg List.filterMap (funext fun item => ?_)
    rw [onItem?_of_itemChange? rfl, Option.guard_apply]
    by_cases hid : item.id = id <;> simp [hid]
  | setLineDuration id duration =>
    refine congrArg rundown.reline (funext fun segment => List.map_congr_left fun line _ => ?_)
    have hitems : line.items.filterMap (setLineDuration id duration).onItem? = line.items :=
      List.filterMap_some
    rw [onLine, hitems, durationOf]
    split <;> rfl
  | _ => cases h

theorem made_comm (ha : a.target?.isSome) (hb : b.target?.isSome) (h : a.target? ≠ b.target?)
    (rundown : Rundown) : b.made (a.made rundown) = a.made (b.made rundown) := by
  obtain ⟨_, ha⟩ := Option.isSome_iff_exists.mp ha
  obtain ⟨_, hb⟩ := Option.isSome_iff_exists.mp hb
  rw [made_eq ha, made_eq hb, made_eq hb, made_eq ha, Rundown.eachLine_eachLine,
    Rundown.eachLine_eachLine]
  simp only [onLine_comm h]

theorem find?_onItem? {id : Id .item} (h : edit.target? ≠ some id.name) (items : List Item) :
    (items.filterMap edit.onItem?).find? (fun item => item.id = id) =
      items.find? fun item => item.id = id := by
  induction items with
  | nil => rfl
  | cons item rest ih =>
    rw [List.filterMap_cons]
    by_cases hid : item.id = id
    · rw [onItem?_of_ne (hid ▸ h)]
      simp [hid]
    · cases hleft : edit.onItem? item with
      | none => simp [hid, ih]
      | some left => simp [hid, ih, (kept_of_onItem? hleft).1]

theorem item?_made {name : Name} (ht : edit.target? = some name) {id : Id .item}
    (h : edit.target? ≠ some id.name) (rundown : Rundown) :
    (edit.made rundown).item? id =
      (rundown.item? id).map fun found => (edit.onLine found.1, found.2) := by
  rw [made_eq ht, Rundown.item?, Rundown.lines_eachLine, List.findSome?_map, Rundown.item?,
    List.map_findSome?]
  refine congrArg (List.findSome? · rundown.lines) (funext fun line => ?_)
  have hitem : (edit.onLine line).item? id = line.item? id := find?_onItem? h line.items
  simp only [Function.comp_apply, hitem, Option.map_map]
  rfl

theorem line?_made {name : Name} (ht : edit.target? = some name) (rundown : Rundown)
    (id : Id .line) : (edit.made rundown).line? id = (rundown.line? id).map edit.onLine := by
  rw [made_eq ht, Rundown.line?, Rundown.lines_eachLine, List.find?_map]
  rfl

theorem distinct_made {name : Name} (ht : edit.target? = some name) (distinct : rundown.Distinct) :
    (edit.made rundown).Distinct := by
  rw [made_eq ht]
  refine ⟨distinct.layers, ?_, ?_, ?_⟩
  · rw [Rundown.eachLine, Rundown.segmentIds_reline]
    exact distinct.segments
  · rw [Rundown.lines_eachLine, List.map_map]
    exact distinct.lines
  · rw [Rundown.lines_eachLine, List.flatMap_map]
    refine (List.Sublist.flatMap_right _ fun line _ => ?_).nodup distinct.items
    change ((line.items.filterMap edit.onItem?).map (·.id)).Sublist (line.items.map (·.id))
    induction line.items with
    | nil => exact .slnil
    | cons item rest ih =>
      rw [List.filterMap_cons]
      cases hleft : edit.onItem? item with
      | none => exact ih.cons item.id
      | some left =>
        rw [List.map_cons, List.map_cons, (kept_of_onItem? hleft).1]
        exact ih.cons_cons item.id

def verdict (edit : Edit) (rundown : Rundown) : Except Fault Unit :=
  (edit.change.apply rundown).1.map fun _ => ()

def tried (edit : Edit) (rundown : Rundown) : Rundown :=
  match edit.verdict rundown with
  | .ok () => edit.made rundown
  | .error _ => rundown

/-- An item is changed if it is there and what is left of it is sound. -/
theorem verdict_of_itemChange? (sound : rundown.Sound) {id : Id .item} {left : Item → Option Item}
    (h : edit.itemChange? = some (id, left)) :
    edit.verdict rundown =
      match rundown.item? id with
      | none => .error (.notFound id.name)
      | some (_, item) => (left item).elim (.ok ()) Item.sound := by
  have set {check : Item → Except Fault Unit} {f : Item → Item}
      (hcheck : ∀ line item, rundown.item? id = some (line, item) → check item = (f item).sound) :
      ((Change.onItem id check f >>= fun line => pure (Upkeep.suffix line)).apply rundown).1.map
          (fun _ => ()) =
        match rundown.item? id with
        | none => .error (.notFound id.name)
        | some (_, item) => (f item).sound := by
    rw [Change.apply_bind, Change.apply_onItem sound.toDistinct]
    cases hfound : rundown.item? id with
    | none => rfl
    | some found =>
      have heq := hcheck found.1 found.2 hfound
      dsimp only
      rw [heq]
      cases (f found.2).sound <;> rfl
  have idOf {line : Line} {item : Item} (h : rundown.item? id = some (line, item)) : item.id = id :=
    (Rundown.mem_of_item? h).2.2
  cases edit with
  | setItemDuration id duration =>
    cases h
    exact set fun line item hfound => idOf hfound ▸ rfl
  | setItemReach id reach =>
    cases h
    exact set fun line item hfound => idOf hfound ▸ rfl
  | setItemContent id content =>
    cases h
    refine set fun line item hfound => ?_
    obtain ⟨hl, hi, -⟩ := Rundown.mem_of_item? hfound
    exact (sound.item hl hi).symm
  | removeItem id =>
    cases h
    rw [verdict, change, Change.apply_bind, Change.apply_removeItem sound.toDistinct]
    cases rundown.item? id <;> rfl
  | _ => cases h

theorem verdict_setLineDuration (distinct : rundown.Distinct) (id : Id .line) (duration : UInt64) :
    (setLineDuration id duration).verdict rundown =
      match rundown.line? id with
      | none => .error (.notFound id.name)
      | some _ => .ok () := by
  rw [verdict, change, Change.apply_bind, Change.apply_onLine distinct]
  cases rundown.line? id <;> rfl

theorem refers_of_verdict (sound : rundown.Sound) (ht : edit.target?.isSome)
    (h : edit.verdict rundown = .ok ()) : edit.Refers rundown := by
  have found {id : Id .item} {left : Item → Option Item}
      (hchange : edit.itemChange? = some (id, left)) : (rundown.item? id).isSome := by
    rw [verdict_of_itemChange? sound hchange] at h
    cases hitem : rundown.item? id with
    | none => rw [hitem] at h; cases h
    | some _ => rfl
  cases edit with
  | setItemDuration | setItemReach | setItemContent | removeItem => exact found rfl
  | setLineDuration id duration =>
    rw [verdict_setLineDuration sound.toDistinct] at h
    change (rundown.line? id).isSome
    cases hline : rundown.line? id with
    | none => rw [hline] at h; cases h
    | some _ => rfl
  | _ => cases ht

theorem sound_made (sound : rundown.Sound) (ht : edit.target?.isSome)
    (h : edit.verdict rundown = .ok ()) : (edit.made rundown).Sound := by
  obtain ⟨_, ht⟩ := Option.isSome_iff_exists.mp ht
  have each : ∀ line ∈ (edit.made rundown).lines, ∀ item ∈ line.items,
      item.layer ∈ rundown.layerIds ∧ item.sound = .ok () := by
    intro line hl item hi
    rw [made_eq ht, Rundown.lines_eachLine] at hl
    obtain ⟨old, hold, rfl⟩ := List.mem_map.mp hl
    obtain ⟨before, hbefore, hleft⟩ := List.mem_filterMap.mp hi
    refine ⟨(kept_of_onItem? hleft).2 ▸ sound.registered old hold before hbefore, ?_⟩
    rcases onItem?_eq_some hleft with rfl | ⟨left, hchange, hfound⟩
    · exact sound.item hold hbefore
    · rw [verdict_of_itemChange? sound hchange, sound.item?_of_mem hold hbefore] at h
      simpa only [hfound, Option.elim_some] using h
  exact ⟨distinct_made ht sound.toDistinct,
    fun line hl item hi => made_eq ht rundown ▸ (each line hl item hi).1,
    fun line hl item hi => Item.sound_eq_ok_iff.mp (each line hl item hi).2⟩

theorem verdict_made (sound : rundown.Sound) (sound' : (b.made rundown).Sound)
    (ha : a.target?.isSome) (hb : b.target?.isSome) (h : a.target? ≠ b.target?) :
    a.verdict (b.made rundown) = a.verdict rundown := by
  obtain ⟨_, hb⟩ := Option.isSome_iff_exists.mp hb
  cases hchange : a.itemChange? with
  | some change =>
    obtain ⟨id, left⟩ := change
    have hne : b.target? ≠ some id.name := target?_of_itemChange? hchange ▸ h.symm
    rw [verdict_of_itemChange? sound' hchange, verdict_of_itemChange? sound hchange,
      item?_made hb hne]
    cases rundown.item? id <;> rfl
  | none =>
    cases a with
    | setLineDuration id duration =>
      rw [verdict_setLineDuration sound'.toDistinct, verdict_setLineDuration sound.toDistinct,
        line?_made hb]
      cases rundown.line? id <;> rfl
    | setItemDuration | setItemReach | setItemContent | removeItem => cases hchange
    | _ => cases ha

theorem tried_of_ok (h : edit.verdict rundown = .ok ()) : edit.tried rundown = edit.made rundown := by
  rw [tried, h]

theorem tried_of_error {fault : Fault} (h : edit.verdict rundown = .error fault) :
    edit.tried rundown = rundown := by
  rw [tried, h]

theorem verdict_tried (sound : rundown.Sound) (ha : a.target?.isSome) (hb : b.target?.isSome)
    (h : a.target? ≠ b.target?) : a.verdict (b.tried rundown) = a.verdict rundown := by
  cases hv : b.verdict rundown with
  | error fault => rw [tried_of_error hv]
  | ok => rw [tried_of_ok hv, verdict_made sound (sound_made sound hb hv) ha hb h]

theorem tried_comm (sound : rundown.Sound) (ha : a.target?.isSome) (hb : b.target?.isSome)
    (h : a.target? ≠ b.target?) : b.tried (a.tried rundown) = a.tried (b.tried rundown) := by
  have hva := verdict_tried sound ha hb h
  have hvb := verdict_tried sound hb ha h.symm
  cases hv : a.verdict rundown with
  | error fault => rw [tried_of_error hv, tried_of_error (hva.trans hv)]
  | ok =>
    cases hv' : b.verdict rundown with
    | error fault => rw [tried_of_error hv', tried_of_error (hvb.trans hv')]
    | ok =>
      rw [tried_of_ok (hvb.trans hv'), tried_of_ok hv, tried_of_ok (hva.trans hv), tried_of_ok hv',
        made_comm ha hb h]

end Edit

namespace Session

variable {session : Session}

def outcome (answer : Except Fault Report) : Except Fault Unit := answer.map fun _ => ()

/-- A session makes an edit with a target exactly if its rundown allows it. -/
theorem Coherent.apply_tried (h : session.Coherent) (ht : edit.target?.isSome) :
    outcome (session.apply edit .unset).1 = edit.verdict session.rundown ∧
      (session.apply edit .unset).2.rundown = edit.tried session.rundown := by
  cases hv : edit.verdict session.rundown with
  | ok =>
    have sound := Edit.sound_made h.sound ht hv
    obtain ⟨report, hreport⟩ := h.ok_of_made (Edit.refers_of_verdict h.sound ht hv) sound
    rw [Edit.tried_of_ok hv, hreport]
    exact ⟨rfl, (h.made_of_ok hreport).2.2⟩
  | error fault =>
    have happly : session.apply edit .unset = (.error fault, session) := by
      rw [apply]
      rw [Edit.verdict] at hv
      cases hchange : edit.change.apply session.rundown with
      | mk answer changed =>
        rw [hchange] at hv
        cases answer with
        | ok upkeep => cases hv
        | error fault' => cases hv; rfl
    rw [happly, Edit.tried_of_error hv]
    exact ⟨rfl, rfl⟩

/-- Each of two edits is made, or refused for the same reason, in either order, and both orders leave
the same rundown and the same on the board. -/
structure Commute (session : Session) (a b : Edit) : Prop where
  outcomes : (session.run [(a, .unset), (b, .unset)]).1.map outcome =
    ((session.run [(b, .unset), (a, .unset)]).1.map outcome).reverse
  rundown : (session.run [(a, .unset), (b, .unset)]).2.rundown =
    (session.run [(b, .unset), (a, .unset)]).2.rundown
  board : (session.run [(a, .unset), (b, .unset)]).2.publisher.board.sameLines
    (session.run [(b, .unset), (a, .unset)]).2.publisher.board = true

/-- However a session was edited before, two edits that change something about different items or
lines commute. -/
theorem edits_commute {settings : Settings} (h : start rundown settings = .ok session)
    (edits : List (Edit × Token)) (ha : a.target?.isSome) (hb : b.target?.isSome)
    (hne : a.target? ≠ b.target?) : (session.run edits).2.Commute a b := by
  have coherent : (session.run edits).2.Coherent := run_coherent (start_coherent h) edits
  generalize (session.run edits).2 = here at coherent
  have after (edit : Edit) : (here.apply edit .unset).2.Coherent := apply_coherent coherent edit .unset
  obtain ⟨houtA, hA⟩ := coherent.apply_tried ha
  obtain ⟨houtB, hB⟩ := coherent.apply_tried hb
  obtain ⟨houtAB, hAB⟩ := (after a).apply_tried hb
  obtain ⟨houtBA, hBA⟩ := (after b).apply_tried ha
  have hrundown : ((here.apply a .unset).2.apply b .unset).2.rundown =
      ((here.apply b .unset).2.apply a .unset).2.rundown := by
    rw [hAB, hBA, hA, hB, Edit.tried_comm coherent.sound ha hb hne]
  refine ⟨?_, hrundown, ?_⟩
  · change [outcome (here.apply a .unset).1, outcome ((here.apply a .unset).2.apply b .unset).1] =
      [outcome ((here.apply b .unset).2.apply a .unset).1, outcome (here.apply b .unset).1]
    rw [houtA, houtB, houtAB, houtBA, hA, hB, Edit.verdict_tried coherent.sound hb ha hne.symm,
      Edit.verdict_tried coherent.sound ha hb hne]
  · have current := (apply_coherent (after a) b .unset).current
    rw [hrundown] at current
    exact current.sameLines (apply_coherent (after b) a .unset).current

/-- The headlines have moved behind the weather. That their logo ends with them now, and that they take
longer, comes to the same in either order. -/
theorem headlines_edits_commute :
    let session : Session := ⟨Rundown.bulletin, (Rundown.bulletin.fullRun .standard).2⟩
    let reach : Edit := .setItemReach ⟨"logo"⟩ .ownLine
    let duration : Edit := .setLineDuration ⟨"headlines"⟩ 45000
    reach.target? ≠ duration.target? ∧
      (session.run [(.moveLine ⟨"headlines"⟩ ⟨"outlook"⟩ 1, .unset)]).2.Commute reach duration := by
  intro session reach duration
  have hne : reach.target? ≠ duration.target? := by decide
  exact ⟨hne, edits_commute start_bulletin _ rfl rfl hne⟩

end Session

end OnAir
