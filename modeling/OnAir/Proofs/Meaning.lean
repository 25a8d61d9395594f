import Mathlib.Algebra.GroupWithZero.Nat
import OnAir.Proofs.FullRun

set_option autoImplicit false

namespace OnAir

/-- An item of a line in one segment stays in effect, until the next one, on a later line of
another. -/
def Reach.Spans (reach : Reach) (origin segment : Id .segment) : Prop :=
  reach ≠ .ownLine ∧ (reach ≠ .segmentEnd ∨ origin = segment)

instance (reach : Reach) (origin segment : Id .segment) : Decidable (reach.Spans origin segment) :=
  inferInstanceAs (Decidable (_ ∧ _))

theorem Reach.spans_iff (reach : Reach) {a b c : Id .segment} (h : a = c → b = c) :
    reach.Spans a c ↔ reach.Spans a b ∧ reach.Spans b c := by
  constructor
  · rintro ⟨hlasts, hreach⟩
    refine ⟨⟨hlasts, hreach.imp_right fun hac => ?_⟩, ⟨hlasts, hreach.imp_right h⟩⟩
    rw [hac, h hac]
  · rintro ⟨⟨hlasts, hfirst⟩, -, hlast⟩
    refine ⟨hlasts, or_iff_not_imp_left.mpr fun hreach => ?_⟩
    rw [hfirst.resolve_left hreach, hlast.resolve_left hreach]

namespace RunningOrder

def placed? (order : RunningOrder) (layer : Id .layer) (index : Nat) : Option (Spot × Item) :=
  (order.spot? index).bind fun spot => (spot.line.lastOn? layer).map (spot, ·)

/-- The item that the last line before an index puts on a layer, among the lines that put one
there, with the index and the spot of that line. -/
def nearest? (order : RunningOrder) (layer : Id .layer) : Nat → Option (Nat × Spot × Item)
  | 0 => none
  | index + 1 =>
    match order.placed? layer index with
    | some placed => some (index, placed)
    | none => nearest? order layer index

def timeBetween (order : RunningOrder) (first index : Nat) : Nat :=
  (((order.spots.take index).drop first).map fun spot => spot.line.duration.toNat).sum

/-- What a layer shows on the line at an index. -/
def meaning (order : RunningOrder) (layer : Id .layer) (index : Nat) (spot : Spot) :
    Option Airing :=
  match spot.line.lastOn? layer with
  | some item =>
    some {
      origin := item.id
      originLine := spot.line.id
      reach := item.reach
      continued := false
      elapsed := 0
      duration := if item.reach ≠ .ownLine ∧ item.duration = 0 then none else some item.duration }
  | none =>
    match order.nearest? layer index with
    | some (first, origin, item) =>
      if item.reach.Spans origin.segment spot.segment then
        some {
          origin := item.id
          originLine := origin.line.id
          reach := item.reach
          continued := true
          elapsed := .ofNat (min (2 ^ 64 - 1) (order.timeBetween first index))
          duration := none }
      else none
    | none => none

variable {order : RunningOrder} {layer : Id .layer} {index first : Nat} {spot origin : Spot}
  {item : Item}

theorem placed?_eq_some_iff :
    order.placed? layer index = some (spot, item) ↔
      order.spot? index = some spot ∧ spot.line.lastOn? layer = some item := by
  rw [placed?]
  cases order.spot? index with
  | none => simp
  | some other =>
    cases hd : other.line.lastOn? layer with
    | none =>
      simp only [Option.bind_some, hd, Option.map_none, reduceCtorEq, Option.some.injEq, false_iff]
      rintro ⟨rfl, h⟩
      exact nomatch hd.symm.trans h
    | some placed =>
      simp only [Option.bind_some, hd, Option.map_some, Option.some.injEq, Prod.mk.injEq]
      constructor
      · rintro ⟨rfl, rfl⟩
        exact ⟨rfl, hd⟩
      · rintro ⟨rfl, h⟩
        exact ⟨rfl, Option.some.inj (hd.symm.trans h)⟩

theorem nearest?_eq_some_iff :
    order.nearest? layer index = some (first, origin, item) ↔
      first < index ∧ order.placed? layer first = some (origin, item) ∧
        ∀ k, first < k → k < index → order.placed? layer k = none := by
  induction index with
  | zero => simp [nearest?]
  | succ index ih =>
    rw [nearest?]
    cases hp : order.placed? layer index with
    | some placed =>
      constructor
      · intro h
        obtain ⟨rfl, rfl⟩ := Prod.mk.inj (Option.some.inj h)
        refine ⟨Nat.lt_succ_self index, hp, fun k hk hk' => ?_⟩
        omega
      · rintro ⟨hlt, hfirst, hnone⟩
        have heq : first = index := by
          by_contra hne
          have hk := hnone index (by omega) (Nat.lt_succ_self index)
          exact nomatch hp.symm.trans hk
        subst heq
        obtain rfl := Option.some.inj (hp.symm.trans hfirst)
        rfl
    | none =>
      rw [ih]
      constructor
      · rintro ⟨hlt, hfirst, hnone⟩
        refine ⟨by omega, hfirst, fun k hk hk' => ?_⟩
        by_cases heq : k = index
        · rw [heq, hp]
        · exact hnone k hk (by omega)
      · rintro ⟨hlt, hfirst, hnone⟩
        have hne : first ≠ index := by
          rintro rfl
          exact nomatch hp.symm.trans hfirst
        exact ⟨by omega, hfirst, fun k hk hk' => hnone k hk (by omega)⟩

theorem nearest?_eq_none_iff :
    order.nearest? layer index = none ↔ ∀ k < index, order.placed? layer k = none := by
  induction index with
  | zero => simp [nearest?]
  | succ index ih =>
    rw [nearest?]
    cases hp : order.placed? layer index with
    | some placed =>
      constructor
      · exact fun h => nomatch h
      · exact fun h => nomatch hp.symm.trans (h index (Nat.lt_succ_self index))
    | none =>
      rw [ih]
      constructor
      · intro h k hk
        by_cases heq : k = index
        · rw [heq, hp]
        · exact h k (by omega)
      · exact fun h k hk => h k (by omega)

theorem take_succ_of_spot? (order : RunningOrder) {index : Nat} {spot : Spot}
    (h : order.spot? index = some spot) :
    order.spots.take (index + 1) = order.spots.take index ++ [spot] := by
  rw [List.take_add_one, show order.spots[index]? = some spot from h]
  rfl

theorem timeBetween_self (order : RunningOrder) (index : Nat) : order.timeBetween index index = 0 := by
  rw [timeBetween, List.drop_eq_nil_of_le (List.length_take_le index order.spots)]
  rfl

theorem timeBetween_succ (h : order.spot? index = some spot) (hle : first ≤ index) :
    order.timeBetween first (index + 1) =
      order.timeBetween first index + spot.line.duration.toNat := by
  have hlt : index < order.spots.length := (List.getElem?_eq_some_iff.mp h).1
  have hlen : first ≤ (order.spots.take index).length := by
    rw [List.length_take]
    omega
  rw [timeBetween, order.take_succ_of_spot? h, List.drop_append_of_le_length hlen, List.map_append,
    List.sum_append]
  rfl

end RunningOrder

theorem addTime_ofNat_min (span : Nat) (duration : UInt64) :
    addTime (.ofNat (min (2 ^ 64 - 1) span)) duration =
      .ofNat (min (2 ^ 64 - 1) (span + duration.toNat)) := by
  apply UInt64.toNat_inj.mp
  rw [toNat_addTime, UInt64.toNat_ofNat', UInt64.toNat_ofNat',
    show UInt64.size = 2 ^ 64 from rfl]
  omega

theorem Airing.next?_eq (airing : Airing) (spot next : Spot) :
    airing.next? spot next =
      if airing.reach.Spans spot.segment next.segment then
        some { airing with
          continued := true
          elapsed := addTime airing.elapsed spot.line.duration
          duration := none }
      else none := by
  rw [next?, goesOn?]
  cases hr : airing.reach <;> by_cases hs : spot.segment = next.segment <;>
    simp [Reach.Spans, Reach.lasts, Reach.crosses, hs]

theorem Rundown.segment_between {rundown : Rundown} (h : (rundown.segments.map (·.id)).Nodup)
    {i j k : Nat} (hij : i ≤ j) (hjk : j ≤ k) {a b c : Spot} (ha : rundown.spots[i]? = some a)
    (hb : rundown.spots[j]? = some b) (hc : rundown.spots[k]? = some c)
    (hac : a.segment = c.segment) : b.segment = c.segment := by
  rw [spots] at ha hb hc
  generalize rundown.segments = segments at h ha hb hc
  induction segments generalizing i j k with
  | nil => simp at ha
  | cons segment rest ih =>
    obtain ⟨hid, hrest⟩ := List.nodup_cons.mp h
    have hin {n : Nat} {s : Spot} (hs : segment.spots[n]? = some s) : s.segment = segment.id := by
      obtain ⟨line, -, rfl⟩ := List.mem_map.mp (List.mem_of_getElem? hs)
      rfl
    have hout {n : Nat} {s : Spot} (hs : (rest.flatMap Segment.spots)[n]? = some s) :
        s.segment ≠ segment.id := by
      obtain ⟨other, ho, hs⟩ := List.mem_flatMap.mp (List.mem_of_getElem? hs)
      obtain ⟨line, -, rfl⟩ := List.mem_map.mp hs
      exact fun heq => hid (List.mem_map.mpr ⟨other, ho, heq⟩)
    rw [List.flatMap_cons, List.getElem?_append] at ha hb hc
    split at hc
    · next hk =>
      rw [if_pos (by omega)] at hb
      rw [hin hb, hin hc]
    · next hk =>
      split at ha
      · exact absurd (hac.symm.trans (hin ha)) (hout hc)
      · next hi =>
        rw [if_neg (by omega)] at hb
        exact ih (by omega) (by omega) hrest ha hb hc

namespace RunningOrder

variable {order : RunningOrder} {layer : Id .layer} {index : Nat} {spot next : Spot}

theorem meaning_of_lastOn {item : Item} (h : spot.line.lastOn? layer = some item) :
    order.meaning layer index spot = some (.declared item spot.line.id) := by
  have hduration : (if item.reach ≠ .ownLine ∧ item.duration = 0 then none else some item.duration) =
      (Airing.declared item spot.line.id).duration := by
    cases hr : item.reach <;> simp [Airing.declared, Reach.lasts, hr]
  rw [meaning, h]
  dsimp only
  rw [hduration]
  rfl

theorem meaning_zero (h : spot.line.lastOn? layer = none) : order.meaning layer 0 spot = none := by
  rw [meaning, h]
  rfl

/-- What a rundown means on a line that puts no item on the layer follows from the line before. -/
theorem meaning_succ
    (together : ∀ {i j k : Nat}, i ≤ j → j ≤ k → ∀ {a b c : Spot}, order.spot? i = some a →
      order.spot? j = some b → order.spot? k = some c → a.segment = c.segment →
        b.segment = c.segment)
    (hs : order.spot? index = some spot) (hn : order.spot? (index + 1) = some next)
    (hd : next.line.lastOn? layer = none) :
    order.meaning layer (index + 1) next =
      (order.meaning layer index spot).bind (Airing.next? spot next) := by
  rw [meaning, hd, nearest?]
  cases hspot : spot.line.lastOn? layer with
  | some item =>
    have hspan : order.timeBetween index (index + 1) = 0 + spot.line.duration.toNat := by
      rw [timeBetween_succ hs (Nat.le_refl index), timeBetween_self]
    rw [placed?_eq_some_iff.mpr ⟨hs, hspot⟩, meaning_of_lastOn hspot, Option.bind_some,
      Airing.next?_eq]
    dsimp only
    rw [hspan, ← addTime_ofNat_min]
    rfl
  | none =>
    have hplaced : order.placed? layer index = none := by
      rw [placed?, hs, Option.bind_some, hspot]
      rfl
    rw [hplaced, meaning, hspot]
    dsimp only
    cases hnear : order.nearest? layer index with
    | none => rfl
    | some near =>
      obtain ⟨first, origin, item⟩ := near
      obtain ⟨hlt, hfirst, -⟩ := nearest?_eq_some_iff.mp hnear
      have hsegment : origin.segment = next.segment → spot.segment = next.segment :=
        together (Nat.le_of_lt hlt) (Nat.le_succ index) (placed?_eq_some_iff.mp hfirst).1 hs hn
      have hspan := timeBetween_succ hs (Nat.le_of_lt hlt)
      -- An item that has left its segment once does not reach a later line of it.
      have hsplit := item.reach.spans_iff hsegment
      dsimp only
      by_cases hspot : item.reach.Spans origin.segment spot.segment
      · rw [if_pos hspot, Option.bind_some, Airing.next?_eq]
        dsimp only
        by_cases hnext : item.reach.Spans spot.segment next.segment
        · rw [if_pos hnext, if_pos (hsplit.mpr ⟨hspot, hnext⟩), hspan, addTime_ofNat_min]
        · rw [if_neg hnext, if_neg fun h => hnext (hsplit.mp h).2]
      · rw [if_neg hspot, if_neg fun h => hspot (hsplit.mp h).1]
        rfl

end RunningOrder

/-- On each line, what comes of the lines before is what the rundown means. -/
theorem Rundown.entry_eq_meaning {rundown : Rundown} (h : (rundown.segments.map (·.id)).Nodup)
    (layer : Id .layer) {index : Nat} {spot : Spot} (hs : rundown.spots[index]? = some spot) :
    (Feed.start.through layer (rundown.spots.take index)).entry layer spot =
      RunningOrder.meaning ⟨rundown.spots⟩ layer index spot := by
  have hlast (spot : Spot) := spot.line.declared?_eq_lastOn? layer
  induction index generalizing spot with
  | zero =>
    rw [List.take_zero]
    cases hd : spot.line.declared? layer with
    | some item =>
      rw [Feed.entry_of_declared hd, RunningOrder.meaning_of_lastOn ((hlast spot).symm.trans hd)]
    | none =>
      rw [RunningOrder.meaning_zero ((hlast spot).symm.trans hd), Feed.entry_of_not_declared hd]
      rfl
  | succ index ih =>
    have hlt : index < rundown.spots.length := by
      have := (List.getElem?_eq_some_iff.mp hs).1
      omega
    have hbefore : rundown.spots[index]? = some rundown.spots[index] := List.getElem?_eq_getElem hlt
    rw [RunningOrder.take_succ_of_spot? ⟨rundown.spots⟩ hbefore, Feed.through_concat,
      Feed.entry_past (Feed.start_inScope.through layer _), ih hbefore]
    cases hd : spot.line.declared? layer with
    | some item => rw [RunningOrder.meaning_of_lastOn ((hlast spot).symm.trans hd)]
    | none =>
      exact (RunningOrder.meaning_succ (segment_between h) hbefore hs ((hlast spot).symm.trans hd)).symm

/-- A run over all lines of a sound rundown succeeds, whatever the board showed, and then each line
has an entry for each layer and no other: what the rundown means there. -/
theorem Publisher.recompute_shows_meaning {rundown : Rundown} (sound : rundown.Sound)
    (publisher : Publisher) :
    ∃ report new, publisher.recompute rundown none .runToEnd .unset = (.ok report, new) ∧
      ∀ index spot, rundown.spots[index]? = some spot →
        ∃ lineup, new.board.line? spot.line.id = some lineup ∧
          ∀ layer, lineup.get? layer =
            if layer ∈ rundown.layerIds then
              some (RunningOrder.meaning ⟨rundown.spots⟩ layer index spot)
            else none := by
  obtain ⟨report, new, hrun, refreshed⟩ := publisher.recompute_of_sound sound
  refine ⟨report, new, hrun, fun index spot hs => ?_⟩
  obtain ⟨hsplit, -⟩ := split_of_getElem? hs
  have shows := refreshed.shows
  rw [hsplit] at shows
  refine ⟨_, (Board.shows_append.mp shows).2.1, fun layer => ?_⟩
  rw [Feeds.get?_lineup, ← Rundown.entry_eq_meaning sound.segments layer hs]
  rfl

theorem recompute_bulletin_shows_logo :
    ∃ report new,
      Publisher.recompute ⟨.standard, Board.empty.put ⟨"encore"⟩ .empty⟩ Rundown.bulletin none
        .runToEnd .unset = (.ok report, new) ∧
      ∃ lineup, new.board.line? ⟨"weather"⟩ = some lineup ∧
        lineup.get? ⟨"graphics"⟩ =
          some (some ⟨⟨"logo"⟩, ⟨"headlines"⟩, .nextItem, true, 120000, none⟩) := by
  obtain ⟨report, new, hrun, shows⟩ := Publisher.recompute_shows_meaning Rundown.bulletin_sound
    ⟨.standard, Board.empty.put ⟨"encore"⟩ .empty⟩
  obtain ⟨lineup, hline, entries⟩ := shows 2 ⟨⟨"outlook"⟩, ⟨⟨"weather"⟩, "Weather", 60000, []⟩⟩ rfl
  exact ⟨report, new, hrun, lineup, hline, entries ⟨"graphics"⟩⟩

end OnAir
