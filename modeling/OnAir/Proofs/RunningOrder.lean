import Mathlib.Data.List.Nodup
import OnAir.Proofs.Register

set_option autoImplicit false

namespace OnAir

theorem nodup_iff_filter_kind {l : List Name} :
    l.Nodup ↔ ∀ kind, (l.filter fun name => decide (name.kind = kind)).Nodup := by
  constructor
  · exact fun h _ => h.filter _
  · intro h
    refine List.nodup_iff_count.mpr fun name => ?_
    have hk := List.nodup_iff_count.mp (h name.kind) name
    rwa [List.count_filter (by simp)] at hk

theorem split_of_getElem? {α : Type} {l : List α} {index : Nat} {x : α} (h : l[index]? = some x) :
    l = l.take index ++ x :: l.drop (index + 1) ∧ (l.take index).length = index := by
  obtain ⟨hlt, rfl⟩ := List.getElem?_eq_some_iff.mp h
  rw [List.getElem_cons_drop, List.take_append_drop, List.length_take]
  exact ⟨rfl, by omega⟩

namespace Rundown

structure Distinct (rundown : Rundown) : Prop where
  layers : rundown.layerIds.Nodup
  segments : (rundown.segments.map (·.id)).Nodup
  lines : (rundown.lines.map (·.id)).Nodup
  items : (rundown.lines.flatMap fun line => line.items.map (·.id)).Nodup

/-- Nothing repeats, items stand on registered layers, and no item that lasts has a duration below
zero. -/
structure Sound (rundown : Rundown) : Prop extends rundown.Distinct where
  registered : ∀ line ∈ rundown.lines, ∀ item ∈ line.items, item.layer ∈ rundown.layerIds
  durations : ∀ line ∈ rundown.lines, ∀ item ∈ line.items, item.reach.lasts = true →
    0 ≤ item.duration

theorem nodup_map_name {kind : Kind} {l : List (Id kind)} :
    (l.map Id.name).Nodup ↔ l.Nodup :=
  List.nodup_map_iff fun _ _ h => Id.name_inj.mp h

theorem filter_names (rundown : Rundown) (kind : Kind) :
    rundown.names.filter (fun name => decide (name.kind = kind)) =
      match kind with
      | .rundown => []
      | .layer => rundown.layerIds.map Id.name
      | .segment => (rundown.segments.map (·.id)).map Id.name
      | .line => (rundown.lines.map (·.id)).map Id.name
      | .item => (rundown.lines.flatMap fun line => line.items.map (·.id)).map Id.name := by
  have none {α : Type} (l : List α) : (l.flatMap fun _ => ([] : List Name)) = [] :=
    List.flatMap_eq_nil_iff.mpr fun _ _ => rfl
  cases kind <;>
    simp [names, Segment.names, Line.names, layerIds, lines, Id.name, none, List.filter_append,
      List.filter_flatMap, List.flatMap_assoc, List.map_eq_flatMap]

theorem names_nodup_iff {rundown : Rundown} : rundown.names.Nodup ↔ rundown.Distinct := by
  rw [nodup_iff_filter_kind]
  constructor
  · intro h
    have h' := fun kind => rundown.filter_names kind ▸ h kind
    exact ⟨nodup_map_name.mp (h' .layer), nodup_map_name.mp (h' .segment),
      nodup_map_name.mp (h' .line), nodup_map_name.mp (h' .item)⟩
  · intro h kind
    rw [filter_names]
    cases kind with
    | rundown => exact .nil
    | layer => exact nodup_map_name.mpr h.layers
    | segment => exact nodup_map_name.mpr h.segments
    | line => exact nodup_map_name.mpr h.lines
    | item => exact nodup_map_name.mpr h.items

theorem order_of_distinct {rundown : Rundown} (h : rundown.Distinct) :
    rundown.order = .ok ⟨rundown.spots⟩ :=
  order_eq_ok_iff.mpr ⟨names_nodup_iff.mpr h, rfl⟩

theorem exists_order_iff {rundown : Rundown} :
    (∃ order, rundown.order = .ok order) ↔ rundown.Distinct := by
  constructor
  · rintro ⟨order, h⟩
    exact names_nodup_iff.mp (order_eq_ok_iff.mp h).1
  · exact fun distinct => ⟨_, order_of_distinct distinct⟩

theorem map_lineId_spots (rundown : Rundown) :
    rundown.spots.map (·.line.id) = rundown.lines.map (·.id) := by
  rw [← spots_map_line, List.map_map]
  rfl

theorem mem_lineIds {rundown : Rundown} {id : Id .line} :
    id ∈ RunningOrder.lineIds ⟨rundown.spots⟩ ↔ id ∈ rundown.lines.map (·.id) := by
  rw [← map_lineId_spots]
  rfl

theorem Distinct.lineIds_nodup {rundown : Rundown} (h : rundown.Distinct) {spots : List Spot}
    (hs : rundown.spots = spots) : (spots.map (·.line.id)).Nodup := by
  rw [← hs, map_lineId_spots]
  exact h.lines

theorem Distinct.itemIds_nodup {rundown : Rundown} (h : rundown.Distinct) {spots : List Spot}
    (hs : rundown.spots = spots) :
    (spots.flatMap fun spot => spot.line.items.map (·.id)).Nodup := by
  have hitems := h.items
  rw [← spots_map_line, List.flatMap_map, hs] at hitems
  exact hitems

theorem line_mem {rundown : Rundown} {spot : Spot} (h : spot ∈ rundown.spots) :
    spot.line ∈ rundown.lines := by
  rw [← spots_map_line]
  exact List.mem_map_of_mem h

theorem exists_spot {rundown : Rundown} {line : Line} (h : line ∈ rundown.lines) :
    ∃ spot ∈ rundown.spots, spot.line = line := by
  rw [← spots_map_line] at h
  exact List.mem_map.mp h

end Rundown

theorem forM_eq_ok_iff {α : Type} {f : α → Except Fault Unit} {l : List α} :
    l.forM f = .ok () ↔ ∀ x ∈ l, f x = .ok () := by
  induction l with
  | nil => exact ⟨fun _ _ h => absurd h List.not_mem_nil, fun _ => rfl⟩
  | cons x rest ih =>
    rw [List.forall_mem_cons, ← ih, List.forM]
    cases f x with
    | error fault => exact ⟨fun h => (nomatch h), fun h => (nomatch h.1)⟩
    | ok => exact ⟨fun h => ⟨rfl, h⟩, fun h => h.2⟩

theorem forM_eq_error_iff {α : Type} {f : α → Except Fault Unit} {l : List α} {fault : Fault} :
    l.forM f = .error fault ↔ ∃ before x after, l = before ++ x :: after ∧
      (∀ y ∈ before, f y = .ok ()) ∧ f x = .error fault := by
  constructor
  · intro h
    induction l with
    | nil => exact nomatch h
    | cons x rest ih =>
      rw [List.forM] at h
      cases hx : f x with
      | error found =>
        rw [hx] at h
        obtain rfl := Except.error.inj h
        exact ⟨[], x, rest, rfl, fun _ hm => absurd hm List.not_mem_nil, hx⟩
      | ok =>
        rw [hx] at h
        obtain ⟨before, y, after, rfl, hbefore, hy⟩ := ih h
        exact ⟨x :: before, y, after, rfl, List.forall_mem_cons.mpr ⟨hx, hbefore⟩, hy⟩
  · rintro ⟨before, x, after, rfl, hbefore, hx⟩
    have hpast : before.forM f = .ok () := forM_eq_ok_iff.mpr hbefore
    have hrest : (x :: after).forM f = .error fault := by
      rw [List.forM, hx]
      rfl
    have happend : (before ++ x :: after).forM f = (before.forM f >>= fun _ => (x :: after).forM f) :=
      List.forM_append
    rw [happend, hpast]
    exact hrest

theorem Item.sound_eq_ok_iff {item : Item} :
    item.sound = .ok () ↔ (item.reach.lasts = true → 0 ≤ item.duration) := by
  have hneg : item.duration < 0 ↔ ¬ 0 ≤ item.duration := Int64.not_le.symm
  rw [Item.sound, Reach.allow]
  by_cases hl : item.reach.lasts = true <;> by_cases hd : 0 ≤ item.duration <;>
    simp [hl, hd, hneg]

theorem Item.check_eq_ok_iff {layers : List (Id .layer)} {item : Item} :
    item.check layers = .ok () ↔
      item.layer ∈ layers ∧ (item.reach.lasts = true → 0 ≤ item.duration) := by
  rw [Item.check]
  split
  · next h => rw [Item.sound_eq_ok_iff]; exact ⟨fun hs => ⟨h, hs⟩, fun hs => hs.2⟩
  · next h => exact ⟨fun hs => (nomatch hs), fun hs => absurd hs.1 h⟩

namespace Rundown

theorem sound_iff {rundown : Rundown} :
    rundown.Sound ↔
      rundown.Distinct ∧ ∀ line ∈ rundown.lines, line.check rundown.layerIds = .ok () := by
  have hline (line : Line) : line.check rundown.layerIds = .ok () ↔
      ∀ item ∈ line.items, item.layer ∈ rundown.layerIds ∧
        (item.reach.lasts = true → 0 ≤ item.duration) := by
    rw [Line.check, forM_eq_ok_iff]
    exact forall₂_congr fun _ _ => Item.check_eq_ok_iff
  constructor
  · intro h
    refine ⟨h.toDistinct, fun line hl => (hline line).mpr fun item hi => ?_⟩
    exact ⟨h.registered line hl item hi, h.durations line hl item hi⟩
  · rintro ⟨distinct, checks⟩
    have hs := fun line hl => (hline line).mp (checks line hl)
    exact ⟨distinct, fun line hl item hi => (hs line hl item hi).1,
      fun line hl item hi => (hs line hl item hi).2⟩

theorem sound_of_checks {rundown : Rundown} (distinct : rundown.Distinct)
    (checks : ∀ spot ∈ rundown.spots, spot.line.check rundown.layerIds = .ok ()) :
    rundown.Sound := by
  refine sound_iff.mpr ⟨distinct, fun line hl => ?_⟩
  obtain ⟨spot, hs, rfl⟩ := exists_spot hl
  exact checks spot hs

theorem Sound.check {rundown : Rundown} (h : rundown.Sound) {spot : Spot}
    (hm : spot ∈ rundown.spots) : spot.line.check rundown.layerIds = .ok () :=
  (sound_iff.mp h).2 spot.line (line_mem hm)

theorem isSome_line? {rundown : Rundown} {id : Id .line} :
    (rundown.line? id).isSome ↔ id ∈ rundown.lines.map (·.id) := by
  rw [line?, List.find?_isSome, List.mem_map]
  simp only [decide_eq_true_eq]

theorem isSome_segment? {rundown : Rundown} {id : Id .segment} :
    (rundown.segment? id).isSome ↔ id ∈ rundown.segments.map (·.id) := by
  rw [segment?, List.find?_isSome, List.mem_map]
  simp only [decide_eq_true_eq]

theorem mem_of_line? {rundown : Rundown} {id : Id .line} {line : Line}
    (h : rundown.line? id = some line) : line ∈ rundown.lines ∧ line.id = id := by
  rw [line?] at h
  exact ⟨List.mem_of_find?_eq_some h, of_decide_eq_true (List.find?_some h :)⟩

theorem mem_of_item? {rundown : Rundown} {id : Id .item} {line : Line} {item : Item}
    (h : rundown.item? id = some (line, item)) :
    line ∈ rundown.lines ∧ item ∈ line.items ∧ item.id = id := by
  obtain ⟨owner, ho, hfound⟩ := List.exists_of_findSome?_eq_some h
  obtain ⟨found, hitem, heq⟩ := Option.map_eq_some_iff.mp hfound
  obtain ⟨rfl, rfl⟩ := Prod.mk.inj heq
  rw [Line.item?] at hitem
  exact ⟨ho, List.mem_of_find?_eq_some hitem, of_decide_eq_true (List.find?_some hitem :)⟩

end Rundown

namespace RunningOrder

theorem contains_iff {order : RunningOrder} {id : Id .line} :
    order.contains id = true ↔ id ∈ order.lineIds := by
  rw [contains, index?, List.findIdx?_isSome, lineIds, List.any_eq_true, List.mem_map]
  simp only [decide_eq_true_eq]

theorem isSome_index? (rundown : Rundown) (id : Id .line) :
    (index? ⟨rundown.spots⟩ id).isSome = (rundown.line? id).isSome :=
  Bool.eq_iff_iff.mpr
    (contains_iff.trans (Rundown.mem_lineIds.trans Rundown.isSome_line?.symm))

theorem index?_of_split {before after : List Spot} {spot : Spot}
    (h : ((before ++ spot :: after).map (·.line.id)).Nodup) :
    index? ⟨before ++ spot :: after⟩ spot.line.id = some before.length := by
  rw [List.map_append, List.map_cons] at h
  have hne : ∀ s ∈ before, ¬ s.line.id = spot.line.id := by
    intro s hs heq
    refine (List.nodup_append.mp h).2.2 s.line.id (List.mem_map_of_mem hs) spot.line.id ?_ heq
    exact List.mem_cons_self
  have hfind : before.findIdx? (fun s => decide (s.line.id = spot.line.id)) = none :=
    List.findIdx?_eq_none_iff.mpr fun s hs => decide_eq_false (hne s hs)
  rw [index?, List.findIdx?_append, hfind, List.findIdx?_cons]
  simp

theorem split_of_index? {order : RunningOrder} {id : Id .line} {index : Nat}
    (h : order.index? id = some index) :
    ∃ before spot after, order.spots = before ++ spot :: after ∧ before.length = index ∧
      spot.line.id = id := by
  obtain ⟨hlt, hid, -⟩ := List.findIdx?_eq_some_iff_getElem.mp h
  refine ⟨order.spots.take index, order.spots[index], order.spots.drop (index + 1), ?_, ?_, ?_⟩
  · rw [List.getElem_cons_drop, List.take_append_drop]
  · rw [List.length_take]
    omega
  · exact of_decide_eq_true hid

theorem item?_of_mem {spots : List Spot}
    (h : (spots.flatMap fun spot => spot.line.items.map (·.id)).Nodup) {spot : Spot}
    (hs : spot ∈ spots) {item : Item} (hi : item ∈ spot.line.items) :
    item? ⟨spots⟩ item.id = some (spot, item) := by
  induction spots with
  | nil => exact absurd hs List.not_mem_nil
  | cons first rest ih =>
    obtain ⟨hfirst, hrest, hdisjoint⟩ := List.nodup_append.mp (List.flatMap_cons ▸ h)
    rw [item?, List.findSome?_cons]
    rcases List.mem_cons.mp hs with rfl | hs
    · have hfound : spot.line.item? item.id = some item := by
        obtain ⟨before, after, hsplit⟩ := List.append_of_mem hi
        rw [hsplit, List.map_append, List.map_cons] at hfirst
        rw [Line.item?, hsplit, List.find?_append, List.find?_cons_of_pos (by simp)]
        have hne : ∀ x ∈ before, ¬ x.id = item.id := fun x hx heq =>
          (List.nodup_append.mp hfirst).2.2 x.id (List.mem_map_of_mem hx) item.id
            List.mem_cons_self heq
        rw [List.find?_eq_none.mpr fun x hx => by simpa using hne x hx]
        rfl
      rw [hfound]
      rfl
    · have habsent : first.line.item? item.id = none := by
        refine List.find?_eq_none.mpr fun x hx heq => ?_
        refine hdisjoint x.id (List.mem_map_of_mem hx) item.id ?_ (of_decide_eq_true heq)
        exact List.mem_flatMap.mpr ⟨spot, hs, List.mem_map_of_mem hi⟩
      rw [habsent]
      exact ih hrest hs

end RunningOrder

end OnAir
