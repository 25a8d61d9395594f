import Mathlib.Algebra.GroupWithZero.Nat
import OnAir.Proofs.FullRun
import OnAir.Proofs.Made

set_option autoImplicit false

namespace OnAir

/-- A register finds each line of a rundown at its place, each item on its line, and nothing
else. -/
structure Register.Indexes (register : Register) (rundown : Rundown) : Prop where
  size : register.size = (rundown.segments.map fun segment => segment.lines.length).sum
  position : ∀ index, register.position? index =
    rundown.placed[index]?.map fun held => ⟨index, held.1, held.2⟩
  index : ∀ id index, register.index? id = some index ↔
    ∃ position, register.position? index = some position ∧ position.line.id = id
  item : ∀ id position item, register.item? id = some (position, item) ↔
    register.position? position.index = some position ∧ item ∈ position.line.items ∧ item.id = id
  /-- No item is entered with an index that is none. -/
  inside : ∀ id index item, register.items.get? id = some (index, item) → index < register.size
  owner : ∀ id position item, register.item? id = some (position, item) →
    rundown.line? position.line.id = some position.line ∧
      rundown.item? id = some (position.line, item)
  since : ∀ index ahead, (register.since index)[ahead]? = register.position? (index + ahead)

theorem IdMap.get?_ofList_of_nodup {kind : Kind} {ν : Type} {entries : List (Id kind × ν)}
    (nodup : (entries.map Prod.fst).Nodup) {id : Id kind} {value : ν} :
    (ofList entries).get? id = some value ↔ (id, value) ∈ entries := by
  rw [ofList, get?_insertAll, get?_empty, Option.or_none, Option.map_eq_some_iff]
  constructor
  · rintro ⟨entry, hlast, rfl⟩
    obtain ⟨hm, hid⟩ := List.mem_filter.mp (List.mem_of_getLast? hlast)
    obtain rfl := of_decide_eq_true hid
    exact hm
  · intro hm
    have hfilter : (id, value) ∈ entries.filter fun entry => decide (entry.1 = id) :=
      List.mem_filter.mpr ⟨hm, decide_eq_true rfl⟩
    have hlast := List.getLast?_eq_some_getLast (List.ne_nil_of_mem hfilter)
    generalize List.getLast _ _ = entry at hlast
    obtain ⟨hentry, hid⟩ := List.mem_filter.mp (List.mem_of_getLast? hlast)
    obtain rfl := List.inj_on_of_nodup_map nodup hentry hm (of_decide_eq_true hid)
    exact ⟨_, hlast, rfl⟩

namespace Register

variable {placed : List (Segment × Line)} {index : Nat}

theorem position?_of (placed : List (Segment × Line)) (index : Nat) :
    (of placed).position? index = placed[index]?.map fun held => ⟨index, held.1, held.2⟩ := by
  rw [position?, of, List.getElem?_map, List.getElem?_zipIdx, Option.map_map]
  simp only [Function.comp_def, Nat.zero_add]

theorem index?_of (nodup : (placed.map (·.2.id)).Nodup) {id : Id .line} :
    (of placed).index? id = some index ↔
      ∃ held, placed[index]? = some held ∧ held.2.id = id := by
  have hkeys : (placed.zipIdx.map fun p => (p.1.2.id, p.2)).map Prod.fst = placed.map (·.2.id) := by
    have hfst := congrArg (List.map (·.2.id)) (List.zipIdx_map_fst 0 placed)
    rwa [List.map_map] at hfst ⊢
  rw [index?, of, IdMap.get?_ofList_of_nodup (hkeys ▸ nodup), List.mem_map]
  constructor
  · rintro ⟨⟨held, _⟩, hm, heq⟩
    obtain ⟨rfl, rfl⟩ := Prod.mk.inj heq
    exact ⟨held, List.mem_zipIdx_iff_getElem?.mp hm, rfl⟩
  · rintro ⟨held, hheld, rfl⟩
    exact ⟨(held, index), List.mem_zipIdx_iff_getElem?.mpr hheld, rfl⟩

theorem get?_items_of (nodup : (placed.flatMap fun held => held.2.items.map (·.id)).Nodup)
    {id : Id .item} {item : Item} :
    (of placed).items.get? id = some (index, item) ↔
      ∃ held, placed[index]? = some held ∧ item ∈ held.2.items ∧ item.id = id := by
  have hkeys : (placed.zipIdx.flatMap fun p => p.1.2.items.map fun item => (item.id, p.2, item)).map
      Prod.fst = placed.flatMap fun held => held.2.items.map (·.id) := by
    have hfst := congrArg (List.flatMap fun held => held.2.items.map (·.id))
      (List.zipIdx_map_fst 0 placed)
    rw [List.flatMap_map] at hfst
    rw [← hfst, List.map_flatMap]
    refine List.flatMap_congr fun p _ => ?_
    rw [List.map_map]
    rfl
  rw [of, IdMap.get?_ofList_of_nodup (hkeys ▸ nodup), List.mem_flatMap]
  constructor
  · rintro ⟨⟨held, _⟩, hm, hitem⟩
    obtain ⟨_, hi, heq⟩ := List.mem_map.mp hitem
    obtain ⟨hid, hvalue⟩ := Prod.mk.inj heq
    obtain ⟨rfl, rfl⟩ := Prod.mk.inj hvalue
    exact ⟨held, List.mem_zipIdx_iff_getElem?.mp hm, hi, hid⟩
  · rintro ⟨held, hheld, hi, rfl⟩
    exact ⟨(held, index), List.mem_zipIdx_iff_getElem?.mpr hheld, List.mem_map_of_mem hi⟩

theorem item?_of (nodup : (placed.flatMap fun held => held.2.items.map (·.id)).Nodup)
    {id : Id .item} {position : Position} {item : Item} :
    (of placed).item? id = some (position, item) ↔
      (of placed).position? position.index = some position ∧ item ∈ position.line.items ∧
        item.id = id := by
  rw [item?, Option.bind_eq_some_iff]
  constructor
  · rintro ⟨⟨index, found⟩, hfound, h⟩
    obtain ⟨position', hposition, heq⟩ := Option.map_eq_some_iff.mp h
    obtain ⟨rfl, rfl⟩ := Prod.mk.inj heq
    obtain ⟨held, hheld, hi, rfl⟩ := (get?_items_of nodup).mp hfound
    rw [position?_of, hheld, Option.map_some] at hposition
    obtain rfl := Option.some.inj hposition
    exact ⟨by rw [position?_of, hheld]; rfl, hi, rfl⟩
  · rintro ⟨hposition, hi, hid⟩
    refine ⟨(position.index, item), ?_, by simp only [hposition, Option.map_some]⟩
    rw [position?_of, Option.map_eq_some_iff] at hposition
    obtain ⟨held, hheld, hposition⟩ := hposition
    refine (get?_items_of nodup).mpr ⟨held, hheld, ?_, hid⟩
    rwa [← hposition] at hi

end Register

namespace RunningOrder

variable {rundown : Rundown}

theorem index?_eq_some_iff (distinct : rundown.Distinct) {id : Id .line} {index : Nat} :
    index? ⟨rundown.spots⟩ id = some index ↔
      ∃ spot, spot? ⟨rundown.spots⟩ index = some spot ∧ spot.line.id = id := by
  constructor
  · intro h
    obtain ⟨before, spot, after, hs, rfl, hid⟩ := split_of_index? h
    change rundown.spots = _ at hs
    rw [hs]
    exact ⟨spot, spot?_of_split, hid⟩
  · rintro ⟨spot, hspot, rfl⟩
    obtain ⟨hsplit, hlength⟩ := split_of_getElem? hspot
    have hindex := index?_of_split (distinct.lineIds_nodup hsplit)
    rw [← hsplit, hlength] at hindex
    exact hindex

theorem item?_eq_some_iff (distinct : rundown.Distinct) {id : Id .item} {spot : Spot} {item : Item} :
    item? ⟨rundown.spots⟩ id = some (spot, item) ↔
      spot ∈ rundown.spots ∧ item ∈ spot.line.items ∧ item.id = id := by
  constructor
  · exact mem_of_item?
  · rintro ⟨hs, hi, rfl⟩
    exact item?_of_mem (distinct.itemIds_nodup rfl) hs hi

end RunningOrder

namespace Rundown

variable {rundown : Rundown} {register : Register}

theorem map_snd_placed (rundown : Rundown) : rundown.placed.map (·.2) = rundown.lines := by
  rw [placed, List.map_flatMap, lines]
  refine List.flatMap_congr fun segment _ => ?_
  rw [Segment.placed, List.map_map]
  exact List.map_id' segment.lines

theorem Distinct.placedLines (distinct : rundown.Distinct) :
    (rundown.placed.map (·.2.id)).Nodup := by
  have h := distinct.lines
  rwa [← map_snd_placed, List.map_map] at h

theorem Distinct.placedItems (distinct : rundown.Distinct) :
    (rundown.placed.flatMap fun held => held.2.items.map (·.id)).Nodup := by
  have h := distinct.items
  rwa [← map_snd_placed, List.flatMap_map] at h

theorem Distinct.register_eq (distinct : rundown.Distinct) :
    rundown.register = .ok (.of rundown.placed) :=
  register_eq_ok_iff.mpr ⟨names_nodup_iff.mpr distinct, rfl⟩

theorem indexes_of_distinct (distinct : rundown.Distinct) :
    (Register.of rundown.placed).Indexes rundown := by
  have hsize : (Register.of rundown.placed).size = rundown.placed.length := by
    simp [Register.size, Register.of]
  constructor
  case size =>
    rw [hsize, ← List.length_map (·.2), map_snd_placed, lines, List.length_flatMap]
  case position => exact Register.position?_of rundown.placed
  case index =>
    intro id index
    rw [Register.index?_of distinct.placedLines, Register.position?_of]
    simp only [Option.map_eq_some_iff, exists_exists_and_eq_and]
  case item => exact fun id position item => Register.item?_of distinct.placedItems
  case inside =>
    intro id index item h
    obtain ⟨held, hheld, -, -⟩ := (Register.get?_items_of distinct.placedItems).mp h
    rw [hsize]
    exact (List.getElem?_eq_some_iff.mp hheld).1
  case owner =>
    intro id position item h
    obtain ⟨hposition, hi, rfl⟩ := (Register.item?_of distinct.placedItems).mp h
    rw [Register.position?_of, Option.map_eq_some_iff] at hposition
    obtain ⟨held, hheld, hposition⟩ := hposition
    have hline : position.line ∈ rundown.lines := by
      rw [← map_snd_placed, ← hposition]
      exact List.mem_map_of_mem (List.mem_of_getElem? hheld)
    exact ⟨distinct.line?_of_mem hline, distinct.item?_of_mem hline hi⟩
  case since => exact fun index ahead => List.getElem?_drop

theorem spot?_order (register : Register) (index : Nat) :
    register.order.spot? index = (register.position? index).map Position.spot := List.getElem?_map

theorem Distinct.index?_order (distinct : rundown.Distinct) (id : Id .line) :
    (Register.of rundown.placed).order.index? id = (Register.of rundown.placed).index? id := by
  refine Option.ext fun index => ?_
  have search : (Register.of rundown.placed).order.index? id = some index ↔ ∃ spot,
      (Register.of rundown.placed).order.spot? index = some spot ∧ spot.line.id = id := by
    rw [order_of_placed]
    exact RunningOrder.index?_eq_some_iff distinct
  rw [search, (indexes_of_distinct distinct).index, spot?_order]
  simp only [Option.map_eq_some_iff, exists_exists_and_eq_and, Position.spot]

theorem Distinct.item?_order (distinct : rundown.Distinct) (id : Id .item) :
    (Register.of rundown.placed).order.item? id =
      ((Register.of rundown.placed).item? id).map fun found => (found.1.spot, found.2) := by
  refine Option.ext fun found => ?_
  obtain ⟨spot, item⟩ := found
  have search : (Register.of rundown.placed).order.item? id = some (spot, item) ↔
      spot ∈ (Register.of rundown.placed).order.spots ∧ item ∈ spot.line.items ∧ item.id = id := by
    rw [order_of_placed]
    exact RunningOrder.item?_eq_some_iff distinct
  have indexes := indexes_of_distinct distinct
  rw [search, Option.map_eq_some_iff]
  constructor
  · rintro ⟨hs, hi, hid⟩
    obtain ⟨index, hindex⟩ := List.mem_iff_getElem?.mp hs
    obtain ⟨position, hposition, rfl⟩ :=
      Option.map_eq_some_iff.mp ((spot?_order _ index).symm.trans hindex)
    have hself : position.index = index := by
      rw [indexes.position, Option.map_eq_some_iff] at hposition
      obtain ⟨held, -, rfl⟩ := hposition
      rfl
    exact ⟨(position, item), (indexes.item ..).mpr ⟨hself ▸ hposition, hi, hid⟩, rfl⟩
  · rintro ⟨⟨position, _⟩, hfound, heq⟩
    obtain ⟨rfl, rfl⟩ := Prod.mk.inj heq
    obtain ⟨hposition, hi, hid⟩ := (indexes.item ..).mp hfound
    exact ⟨List.mem_map_of_mem (List.mem_of_getElem? hposition), hi, hid⟩

/-- The running order is the list of what stands in the register. Searching it finds what the
register has in its tables. -/
theorem order_of_register (h : rundown.register = .ok register) :
    rundown.order = .ok register.order ∧ register.order.lineIds = register.lineIds ∧
      (∀ index, register.order.spot? index = (register.position? index).map Position.spot) ∧
      (∀ id, register.order.index? id = register.index? id) ∧
      ∀ id, register.order.item? id =
        (register.item? id).map fun found => (found.1.spot, found.2) := by
  obtain ⟨nodup, rfl⟩ := register_eq_ok_iff.mp h
  have distinct := names_nodup_iff.mp nodup
  exact ⟨by rw [order, h]; rfl, List.map_map, spot?_order _, distinct.index?_order,
    distinct.item?_order⟩

/-- A rundown can be read into a register exactly if no identifier repeats, and the register is then
an index of the rundown. Otherwise the fault names the first identifier that repeats, where the
layers are read first, and then each segment, each of its lines, and the items of the line. -/
theorem register_indexes_or_repeats (rundown : Rundown) :
    ((∃ register, rundown.register = .ok register) ↔ rundown.Distinct) ∧
    (∀ register, rundown.register = .ok register → register.Indexes rundown) ∧
    ∀ fault, rundown.register = .error fault ↔ ∃ name,
      FirstRepeat (rundown.layers.map (·.id.name) ++ rundown.segments.flatMap fun segment =>
        segment.id.name :: segment.lines.flatMap fun line =>
          line.id.name :: line.items.map (·.id.name)) name ∧
      fault = .duplicate name := by
  refine ⟨⟨?_, fun distinct => ⟨_, distinct.register_eq⟩⟩, fun register h => ?_,
    fun fault => register_eq_error_iff⟩
  · rintro ⟨register, h⟩
    exact names_nodup_iff.mp (register_eq_ok_iff.mp h).1
  · obtain ⟨nodup, rfl⟩ := register_eq_ok_iff.mp h
    exact indexes_of_distinct (names_nodup_iff.mp nodup)

/-- The bulletin is found item by item. Told twice over, with the outlook first, it is refused for
the weather: that segment's line repeats before the news do. -/
theorem register_bulletin_indexes_or_repeats :
    let logo : Item := ⟨⟨"logo"⟩, ⟨"graphics"⟩, 0, .nextItem, .empty⟩
    let headlines : Line := ⟨⟨"headlines"⟩, "Headlines", 30000, [logo]⟩
    let news : Segment := ⟨⟨"news"⟩, "News", [headlines, ⟨⟨"report"⟩, "Report", 90000, []⟩]⟩
    let again : Segment := ⟨⟨"repeat"⟩, "", bulletin.segments.reverse.flatMap Segment.lines⟩
    (∃ register, bulletin.register = .ok register ∧ register.index? ⟨"weather"⟩ = some 2 ∧
      register.item? ⟨"logo"⟩ = some (⟨0, news, headlines⟩, logo)) ∧
    { bulletin with segments := bulletin.segments ++ [again] }.register =
      .error (.duplicate ⟨.line, "weather"⟩) := by
  intro logo headlines news again
  obtain ⟨found, indexes, -⟩ := bulletin.register_indexes_or_repeats
  obtain ⟨register, hregister⟩ := found.mpr bulletin_sound.toDistinct
  have index := indexes register hregister
  have hweather := index.position 2
  have hheadlines := index.position 0
  refine ⟨⟨register, hregister, (index.index _ _).mpr ⟨_, hweather, rfl⟩,
    (index.item _ _ _).mpr ⟨hheadlines, by decide, rfl⟩⟩, ?_⟩
  let before : List Name := [⟨.layer, "graphics"⟩, ⟨.segment, "news"⟩, ⟨.line, "headlines"⟩,
    ⟨.item, "logo"⟩, ⟨.line, "report"⟩, ⟨.segment, "outlook"⟩, ⟨.line, "weather"⟩,
    ⟨.segment, "repeat"⟩]
  let after : List Name := [⟨.line, "headlines"⟩, ⟨.item, "logo"⟩, ⟨.line, "report"⟩]
  have nodup : before.Nodup := by decide
  have told : ⟨.line, "weather"⟩ ∈ before := by decide
  exact ((register_indexes_or_repeats _).2.2 _).mpr ⟨_, ⟨before, after, rfl, nodup, told⟩, rfl⟩

end Rundown

end OnAir
