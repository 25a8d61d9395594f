import OnAir.Proofs.FullRun

set_option autoImplicit false

namespace OnAir

/-- What keeps an item off air. The duration counts only where the layer is registered. -/
inductive Item.Offends (layers : List (Id .layer)) (item : Item) : Fault → Prop where
  | layer : item.layer ∉ layers → item.Offends layers (.notFound item.layer.name)
  | duration : item.layer ∈ layers → item.reach.lasts = true → item.duration < 0 →
      item.Offends layers (.negativeDuration item.id item.duration)

inductive Rundown.Refused (rundown : Rundown) : Fault → Prop where
  | repeats {name : Name} : FirstRepeat rundown.names name → rundown.Refused (.duplicate name)
  | item {before after : List Item} {item : Item} {fault : Fault} : rundown.Distinct →
      rundown.lines.flatMap Line.items = before ++ item :: after →
      (∀ earlier ∈ before, ∀ other, ¬ earlier.Offends rundown.layerIds other) →
      item.Offends rundown.layerIds fault → rundown.Refused fault

namespace Item

variable {layers : List (Id .layer)} {item : Item} {fault : Fault}

theorem check_eq_error_iff : item.check layers = .error fault ↔ item.Offends layers fault := by
  by_cases registered : item.layer ∈ layers
  · rw [check, if_pos registered, sound, Reach.allow]
    constructor
    · intro h
      split at h
      · next hneg =>
        rw [Bool.and_eq_true, decide_eq_true_eq] at hneg
        obtain rfl := Except.error.inj h
        exact .duration registered hneg.1 hneg.2
      · cases h
    · intro h
      cases h with
      | layer absent => exact absurd registered absent
      | duration _ lasts negative =>
        rw [lasts, decide_eq_true negative]
        rfl
  · rw [check, if_neg registered]
    constructor
    · intro h
      obtain rfl := Except.error.inj h
      exact .layer registered
    · intro h
      cases h with
      | layer _ => rfl
      | duration present _ _ => exact absurd present registered

theorem check_eq_ok_iff_not_offends :
    item.check layers = .ok () ↔ ∀ fault, ¬ item.Offends layers fault := by
  simp only [← check_eq_error_iff]
  cases item.check layers with
  | ok => exact ⟨fun _ _ h => (nomatch h), fun _ => rfl⟩
  | error fault => exact ⟨fun h => (nomatch h), fun h => absurd rfl (h fault)⟩

end Item

theorem forM_flatMap {α β : Type} (f : β → Except Fault Unit) (g : α → List β) (l : List α) :
    (l.flatMap g).forM f = l.forM fun x => (g x).forM f := by
  induction l with
  | nil => rfl
  | cons x rest ih =>
    have hsplit : (g x ++ rest.flatMap g).forM f = ((g x).forM f >>= fun _ => (rest.flatMap g).forM f) :=
      List.forM_append
    rw [List.flatMap_cons, hsplit, ih]
    rfl

namespace Rundown

variable {rundown : Rundown} {fault : Fault}

theorem forM_check_spots (rundown : Rundown) :
    (rundown.spots.forM fun spot => spot.line.check rundown.layerIds) =
      (rundown.lines.flatMap Line.items).forM (Item.check rundown.layerIds) := by
  rw [← spots_map_line, List.flatMap_map, forM_flatMap]
  rfl

theorem refused_iff_of_distinct (distinct : rundown.Distinct) :
    rundown.Refused fault ↔
      (rundown.lines.flatMap Line.items).forM (Item.check rundown.layerIds) = .error fault := by
  rw [forM_eq_error_iff]
  simp only [Item.check_eq_error_iff, Item.check_eq_ok_iff_not_offends]
  constructor
  · intro h
    cases h with
    | repeats first =>
      have horder := order_eq_error_iff.mpr ⟨_, first, rfl⟩
      exact nomatch (order_of_distinct distinct).symm.trans horder
    | item _ hsplit clean offends => exact ⟨_, _, _, hsplit, clean, offends⟩
  · rintro ⟨before, item, after, hsplit, clean, offends⟩
    exact .item distinct hsplit clean offends

theorem refused_iff_of_order_error {found : Fault} (h : rundown.order = .error found) :
    rundown.Refused fault ↔ fault = found := by
  obtain ⟨name, first, rfl⟩ := order_eq_error_iff.mp h
  constructor
  · intro refused
    cases refused with
    | repeats other => rw [other.unique first]
    | item distinct => exact nomatch h.symm.trans (order_of_distinct distinct)
  · rintro rfl
    exact .repeats first

theorem not_sound_iff :
    ¬ rundown.Sound ↔ ¬ rundown.Distinct ∨ ∃ line ∈ rundown.lines, ∃ item ∈ line.items,
      item.layer ∉ rundown.layerIds ∨ (item.reach.lasts = true ∧ item.duration < 0) := by
  constructor
  · intro h
    by_contra hnot
    push Not at hnot
    obtain ⟨distinct, clean⟩ := hnot
    exact h ⟨distinct, fun line hl item hi => (clean line hl item hi).1,
      fun line hl item hi lasts => Int64.not_lt.mp ((clean line hl item hi).2 lasts)⟩
  · rintro (h | ⟨line, hl, item, hi, absent | ⟨lasts, negative⟩⟩) sound
    · exact h sound.toDistinct
    · exact absent (sound.registered line hl item hi)
    · exact Int64.not_le.mpr negative (sound.durations line hl item hi lasts)

end Rundown

namespace Publisher

variable {rundown : Rundown} {fault : Fault}

theorem pass_all (publisher : Publisher) (distinct : rundown.Distinct) :
    ∃ found, publisher.pass rundown.layerIds ⟨rundown.spots⟩ 0 .runToEnd .unset =
      ((rundown.lines.flatMap Line.items).forM (Item.check rundown.layerIds)).map fun _ => found := by
  rw [← Rundown.forM_check_spots]
  exact ⟨_, pass_runToEnd (distinct.itemIds_nodup (List.nil_append rundown.spots).symm) trivial⟩

theorem recompute_error_iff (publisher : Publisher) :
    (publisher.recompute rundown none .runToEnd .unset).1 = .error fault ↔ rundown.Refused fault := by
  cases horder : rundown.order with
  | error found =>
    rw [Rundown.refused_iff_of_order_error horder, recompute, update, horder]
    exact ⟨fun h => (Except.error.inj h).symm, fun h => h ▸ rfl⟩
  | ok order =>
    have distinct := Rundown.exists_order_iff.mp ⟨order, horder⟩
    obtain ⟨found, hpass⟩ := publisher.pass_all distinct
    rw [Rundown.refused_iff_of_distinct distinct, recompute, update_of_distinct distinct rfl, hpass]
    cases (rundown.lines.flatMap Line.items).forM (Item.check rundown.layerIds) with
    | error found => exact ⟨fun h => Except.error.inj h ▸ rfl, fun h => Except.error.inj h ▸ rfl⟩
    | ok =>
      constructor
      · intro h
        cases h
      · intro h
        cases h

/-- A run over all lines fails exactly on the rundowns that are not sound. What it answers is decided
by the rundown, whatever the board and the settings are, and the publisher stays as it was. -/
theorem recompute_refused_iff (publisher : Publisher) (rundown : Rundown) :
    ((∃ fault, (publisher.recompute rundown none .runToEnd .unset).1 = .error fault) ↔
      ¬ rundown.Distinct ∨ ∃ line ∈ rundown.lines, ∃ item ∈ line.items,
        item.layer ∉ rundown.layerIds ∨ (item.reach.lasts = true ∧ item.duration < 0)) ∧
    ∀ fault next, publisher.recompute rundown none .runToEnd .unset = (.error fault, next) ↔
      rundown.Refused fault ∧ next = publisher := by
  constructor
  · rw [← Rundown.not_sound_iff]
    constructor
    · rintro ⟨fault, h⟩ sound
      obtain ⟨report, new, hrun, -⟩ := publisher.recompute_of_sound sound
      exact nomatch h.symm.trans (congrArg Prod.fst hrun)
    · intro unsound
      cases hrun : publisher.recompute rundown none .runToEnd .unset with
      | mk answer new =>
        cases answer with
        | error fault => exact ⟨fault, rfl⟩
        | ok report => exact absurd (sound_of_recompute hrun) unsound
  · intro fault next
    constructor
    · intro h
      have herror := congrArg Prod.fst h
      have hkept : (publisher.recompute rundown none .runToEnd .unset).2 = publisher := update_error herror
      exact ⟨publisher.recompute_error_iff.mp herror, (congrArg Prod.snd h).symm.trans hkept⟩
    · rintro ⟨refused, rfl⟩
      have herror := next.recompute_error_iff.mpr refused
      exact Prod.ext herror (update_error herror)

/-- The first logo would be overridden by the second one, but keeps the rundown off air. -/
example :
    let first : Item := ⟨⟨"logo"⟩, ⟨"graphics"⟩, -1, .nextItem, .empty⟩
    let second : Item := ⟨⟨"clean-logo"⟩, ⟨"graphics"⟩, 0, .nextItem, .empty⟩
    let news : Segment := ⟨⟨"news"⟩, "News", [⟨⟨"headlines"⟩, "", 30000, [first, second]⟩]⟩
    ((fresh .standard).recompute { Rundown.bulletin with segments := [news] } none .runToEnd .unset).1 =
      .error (.negativeDuration ⟨"logo"⟩ (-1)) := by
  rfl

end Publisher

end OnAir
