import Mathlib.Data.List.Induction
import OnAir.Lane

set_option autoImplicit false

/-!
Feeds: what comes into a line on one layer from the lines before. A feed is taken through the
spots one by one, and what a layer shows on a line follows from what it showed on the line before
(`Feed.entry_past`). So two feeds that show the same on one line show the same from there on.
-/
namespace OnAir

theorem addTime_zero (duration : UInt64) : addTime 0 duration = duration := by
  have hlt := duration.toNat_lt
  apply UInt64.toNat_inj.mp
  rw [toNat_addTime, show (0 : UInt64).toNat = 0 from rfl, show UInt64.size = 2 ^ 64 from rfl]
  omega

/-- Of the items of a line on a layer, the last one. -/
def Line.lastOn? (line : Line) (layer : Id .layer) : Option Item := (line.itemsFor layer).getLast?

theorem Line.declared?_eq_lastOn? (line : Line) (layer : Id .layer) :
    line.declared? layer = line.lastOn? layer := by
  rw [declared?, declared, IdMap.get?_ofList_map Item.layer fun item => item]
  exact Option.map_id'

theorem Line.mem_of_declared? {line : Line} {layer : Id .layer} {item : Item}
    (h : line.declared? layer = some item) : item ∈ line.items ∧ item.layer = layer := by
  rw [declared?_eq_lastOn?] at h
  have hm := List.mem_of_getLast? h
  rw [itemsFor, List.mem_filter] at hm
  exact ⟨hm.1, of_decide_eq_true hm.2⟩

def Airing.goesOn? (duration : UInt64) (airing : Airing) : Option Airing :=
  if airing.reach.lasts then
    some { airing with continued := true, elapsed := addTime airing.elapsed duration, duration := none }
  else none

def Airing.next? (spot next : Spot) (airing : Airing) : Option Airing :=
  (airing.goesOn? spot.line.duration).filter fun a =>
    a.reach.crosses || decide (spot.segment = next.segment)

/-- What comes into a line on a layer: the segment of the line before, and what goes on. -/
structure Feed where
  last : Option (Id .segment)
  carry : Option Carry

namespace Feed

variable {feed : Feed} {layer : Id .layer}

def start : Feed := ⟨none, none⟩

def into (feed : Feed) (segment : Id .segment) : Option Carry :=
  if feed.last = some segment then feed.carry else feed.carry.filter (Carry.reaches · segment)

def entry (feed : Feed) (layer : Id .layer) (spot : Spot) : Option Airing :=
  (Lane.show? layer (feed.into spot.segment) spot).1

def past (feed : Feed) (layer : Id .layer) (spot : Spot) : Feed :=
  ⟨some spot.segment, (Lane.show? layer (feed.into spot.segment) spot).2⟩

def through (feed : Feed) (layer : Id .layer) (spots : List Spot) : Feed :=
  spots.foldl (fun f spot => f.past layer spot) feed

theorem through_append (feed : Feed) (layer : Id .layer) (xs ys : List Spot) :
    feed.through layer (xs ++ ys) = (feed.through layer xs).through layer ys :=
  List.foldl_append

theorem through_concat (feed : Feed) (layer : Id .layer) (spots : List Spot) (spot : Spot) :
    feed.through layer (spots ++ [spot]) = (feed.through layer spots).past layer spot :=
  feed.through_append layer spots [spot]

theorem entry_of_declared {spot : Spot} {item : Item}
    (h : spot.line.declared? layer = some item) :
    feed.entry layer spot = some (.declared item spot.line.id) := by
  rw [entry, Lane.show?, h]

theorem entry_of_not_declared {spot : Spot} (h : spot.line.declared? layer = none) :
    feed.entry layer spot = (feed.into spot.segment).map Carry.airing := by
  rw [entry, Lane.show?, h]

theorem carry_past_of_declared {spot : Spot} {item : Item}
    (h : spot.line.declared? layer = some item) :
    (feed.past layer spot).carry = if item.reach.lasts then some (.start item spot) else none := by
  rw [past, Lane.show?, h]

theorem carry_past_of_not_declared {spot : Spot} (h : spot.line.declared? layer = none) :
    (feed.past layer spot).carry =
      (feed.into spot.segment).map (Carry.past · spot.line.duration) := by
  rw [past, Lane.show?, h]

theorem mem_carry_of_mem_into {segment : Id .segment} {carry : Carry}
    (h : carry ∈ feed.into segment) : carry ∈ feed.carry := by
  rw [into] at h
  split at h
  · exact h
  · exact (Option.mem_filter_iff.mp h).1

/-- What goes on lasts, and it is past the end of its segment only if it may be. -/
def InScope (feed : Feed) : Prop :=
  ∀ carry ∈ feed.carry,
    carry.reach.lasts = true ∧ (carry.reach.crosses = true ∨ feed.last = some carry.segment)

theorem start_inScope : start.InScope := fun _ h => nomatch h

theorem InScope.into {segment : Id .segment} (h : feed.InScope) {carry : Carry}
    (hc : carry ∈ feed.into segment) :
    carry.reach.lasts = true ∧ (carry.reach.crosses = true ∨ segment = carry.segment) := by
  obtain ⟨hlasts, hscope⟩ := h carry (mem_carry_of_mem_into hc)
  refine ⟨hlasts, ?_⟩
  rw [Feed.into] at hc
  split at hc
  · next heq => exact hscope.imp_right fun hl => Option.some.inj (heq.symm.trans hl)
  · have hr := (Option.mem_filter_iff.mp hc).2
    rw [Carry.reaches, Bool.or_eq_true, decide_eq_true_eq] at hr
    exact hr.imp_right Eq.symm

theorem InScope.past (h : feed.InScope) (layer : Id .layer) (spot : Spot) :
    (feed.past layer spot).InScope := by
  intro carry hc
  cases hd : spot.line.declared? layer with
  | some item =>
    rw [carry_past_of_declared hd] at hc
    split at hc
    · next hlasts =>
      cases hc
      exact ⟨hlasts, .inr rfl⟩
    · exact nomatch hc
  | none =>
    rw [carry_past_of_not_declared hd] at hc
    obtain ⟨before, hb, rfl⟩ := Option.map_eq_some_iff.mp hc
    obtain ⟨hlasts, hscope⟩ := h.into hb
    exact ⟨hlasts, hscope.imp_right (congrArg some)⟩

theorem InScope.through (h : feed.InScope) (layer : Id .layer) (spots : List Spot) :
    (feed.through layer spots).InScope := by
  induction spots generalizing feed with
  | nil => exact h
  | cons spot spots ih => exact ih (h.past layer spot)

theorem carry_past (h : feed.InScope) (layer : Id .layer) (spot : Spot) :
    (feed.past layer spot).carry.map Carry.airing =
      (feed.entry layer spot).bind (Airing.goesOn? spot.line.duration) := by
  cases hd : spot.line.declared? layer with
  | some item =>
    rw [carry_past_of_declared hd, entry_of_declared hd]
    change _ = if item.reach.lasts then some _ else none
    have helapsed : addTime (Airing.declared item spot.line.id).elapsed spot.line.duration =
        spot.line.duration := addTime_zero spot.line.duration
    rw [helapsed]
    split <;> rfl
  | none =>
    rw [carry_past_of_not_declared hd, entry_of_not_declared hd]
    cases hc : feed.into spot.segment with
    | none => rfl
    | some carry =>
      have hlasts := (h.into (show carry ∈ feed.into spot.segment from hc)).1
      change some _ = if carry.reach.lasts then some _ else none
      rw [if_pos hlasts]
      rfl

theorem InScope.into_eq_filter (h : feed.InScope) {last : Id .segment} (hl : feed.last = some last)
    (segment : Id .segment) :
    feed.into segment =
      feed.carry.filter fun carry => carry.reach.crosses || decide (last = segment) := by
  rw [Feed.into, hl]
  cases hc : feed.carry with
  | none => simp
  | some carry =>
    have hscope := (h carry hc).2
    rw [hl] at hscope
    by_cases hs : last = segment
    · rw [if_pos (congrArg some hs), Option.filter_some, decide_eq_true hs, Bool.or_true, if_pos rfl]
    · have hreach : carry.reaches segment = carry.reach.crosses := by
        rw [Carry.reaches]
        cases hcross : carry.reach.crosses with
        | true => rfl
        | false =>
          have hseg : last = carry.segment :=
            Option.some.inj (hscope.resolve_left (hcross ▸ Bool.false_ne_true))
          exact decide_eq_false fun heq => hs (hseg.trans heq)
      rw [if_neg fun heq => hs (Option.some.inj heq), Option.filter_some, Option.filter_some, hreach,
        decide_eq_false hs, Bool.or_false]

theorem entry_past (h : feed.InScope) (spot next : Spot) :
    (feed.past layer spot).entry layer next =
      match next.line.declared? layer with
      | some item => some (.declared item next.line.id)
      | none => (feed.entry layer spot).bind (Airing.next? spot next) := by
  cases hd : next.line.declared? layer with
  | some item => exact entry_of_declared hd
  | none =>
    have hinto := (h.past layer spot).into_eq_filter rfl next.segment
    have hcarry := carry_past h layer spot
    have hbind : (feed.entry layer spot).bind (Airing.next? spot next) =
        ((feed.past layer spot).carry.map Carry.airing).filter fun airing =>
          airing.reach.crosses || decide (spot.segment = next.segment) := by
      rw [hcarry]
      cases feed.entry layer spot <;> rfl
    rw [entry_of_not_declared hd, hinto, hbind]
    cases (feed.past layer spot).carry with
    | none => rfl
    | some carry =>
      rw [Option.map_some, Option.filter_some, Option.filter_some]
      change Option.map _ (if _ then _ else _) =
        if (carry.reach.crosses || decide (spot.segment = next.segment)) = true then _ else _
      split <;> rfl

def Comes (layer : Id .layer) (spots : List Spot) (carry : Carry) : Prop :=
  ∃ spot ∈ spots, ∃ item ∈ spot.line.items, item.layer = layer ∧ item.reach.lasts = true ∧
    carry = { Carry.start item spot with elapsed := carry.elapsed }

def From (feed : Feed) (layer : Id .layer) (spots : List Spot) : Prop :=
  ∀ carry ∈ feed.carry, Comes layer spots carry

/-- Past a line, what goes on comes from the spots before or from the line itself. -/
theorem From.past {before : List Spot} (h : feed.From layer before) (spot : Spot) :
    (feed.past layer spot).From layer (before ++ [spot]) := by
  intro carry hc
  cases hd : spot.line.declared? layer with
  | some item =>
    obtain ⟨hi, hlayer⟩ := Line.mem_of_declared? hd
    rw [carry_past_of_declared hd] at hc
    split at hc
    · next hlasts =>
      cases hc
      exact ⟨spot, List.mem_append_right _ List.mem_cons_self, item, hi, hlayer, hlasts, rfl⟩
    · exact nomatch hc
  | none =>
    rw [carry_past_of_not_declared hd] at hc
    obtain ⟨earlier, he, rfl⟩ := Option.map_eq_some_iff.mp hc
    obtain ⟨origin, ho, item, hi, hlayer, hlasts, heq⟩ := h earlier (mem_carry_of_mem_into he)
    refine ⟨origin, List.mem_append_left _ ho, item, hi, hlayer, hlasts, ?_⟩
    rw [heq]
    rfl

theorem From.through {before : List Spot} (h : feed.From layer before) (spots : List Spot) :
    (feed.through layer spots).From layer (before ++ spots) := by
  induction spots generalizing feed before with
  | nil =>
    rw [List.append_nil]
    exact h
  | cons spot rest ih =>
    rw [List.append_cons]
    exact ih (h.past spot)

theorem start_from (layer : Id .layer) : start.From layer [] := fun _ h => nomatch h

theorem comes_through (layer : Id .layer) (spots : List Spot) :
    ∀ carry ∈ (start.through layer spots).carry, Comes layer spots carry :=
  (start_from layer).through spots

end Feed

end OnAir
