import OnAir.Proofs.RunningOrder
import OnAir.Proofs.Walk

set_option autoImplicit false

namespace OnAir

/-- An airing names the item that it shows and the line that declares it, and the item is what the
layer carries on, if it lasts. -/
theorem Feed.origin_of_entry {layer : Id .layer} {before : List Spot} {spot : Spot} {airing : Airing}
    (h : (start.through layer before).entry layer spot = some airing) :
    ∃ origin ∈ before ++ [spot], ∃ item ∈ origin.line.items,
      item.id = airing.origin ∧ item.layer = layer ∧ item.reach = airing.reach ∧
      origin.line.id = airing.originLine ∧
      ((start.through layer before).past layer spot).carry =
        if item.reach.lasts then
          some { Carry.start item origin with elapsed := addTime airing.elapsed spot.line.duration }
        else none := by
  cases hd : spot.line.declared? layer with
  | some item =>
    rw [entry_of_declared hd] at h
    obtain rfl := Option.some.inj h
    obtain ⟨hi, hlayer⟩ := Line.mem_of_declared? hd
    refine ⟨spot, List.mem_append_right _ List.mem_cons_self, item, hi, rfl, hlayer, rfl, rfl, ?_⟩
    rw [carry_past_of_declared hd,
      show (Airing.declared item spot.line.id).elapsed = 0 from rfl, addTime_zero]
    rfl
  | none =>
    rw [entry_of_not_declared hd] at h
    obtain ⟨carry, hc, rfl⟩ := Option.map_eq_some_iff.mp h
    obtain ⟨origin, ho, item, hi, hlayer, hlasts, heq⟩ :=
      comes_through layer before carry (mem_carry_of_mem_into hc)
    refine ⟨origin, List.mem_append_left _ ho, item, hi, ?_, hlayer, ?_, ?_, ?_⟩
    · rw [heq]; rfl
    · rw [heq]; rfl
    · rw [heq]; rfl
    · rw [carry_past_of_not_declared hd, hc, if_pos hlasts, heq]
      rfl

namespace RunningOrder

variable {spots before after : List Spot} {spot : Spot}

theorem carryPast?_of_entry (hn : (spots.flatMap fun s => s.line.items.map (·.id)).Nodup)
    (hs : spots = before ++ spot :: after) {layer : Id .layer} {lineup : Lineup}
    (h : lineup.get? layer = some ((Feed.start.through layer before).entry layer spot)) :
    carryPast? ⟨spots⟩ spot lineup layer =
      some (((Feed.start.through layer before).past layer spot).carry) := by
  cases he : (Feed.start.through layer before).entry layer spot with
  | none =>
    have hnone : ((Feed.start.through layer before).past layer spot).carry = none := by
      have hcarry := Feed.carry_past (Feed.start_inScope.through layer before) layer spot
      rw [he] at hcarry
      exact Option.map_eq_none_iff.mp hcarry
    rw [carryPast?, h, he, hnone]
  | some airing =>
    obtain ⟨origin, ho, item, hi, hid, hlayer, hreach, hline, hcarry⟩ := Feed.origin_of_entry he
    have hmem : origin ∈ spots := by
      rw [hs, List.append_cons]
      exact List.mem_append_left _ ho
    have hfound := item?_of_mem hn hmem hi
    rw [hid] at hfound
    rw [carryPast?, h, he, hcarry]
    simp only [hfound]
    exact if_pos ⟨hlayer, hreach, hline⟩

theorem spot?_of_split : spot? ⟨before ++ spot :: after⟩ before.length = some spot := by
  rw [spot?, List.getElem?_append_right (Nat.le_refl _), Nat.sub_self]
  rfl

theorem since_of_split : since ⟨before ++ after⟩ before.length = after := List.drop_left

theorem segmentBefore?_of_split (layer : Id .layer) :
    segmentBefore? ⟨before ++ after⟩ before.length = ((Feeds.start.through before) layer).last := by
  rcases List.eq_nil_or_concat before with rfl | ⟨earlier, spot, rfl⟩
  · rfl
  · rw [List.concat_eq_append, List.append_assoc, List.singleton_append, List.length_append]
    change (spot? _ earlier.length).map Spot.segment = _
    rw [spot?_of_split, Feeds.through, Feed.through_concat]
    rfl

theorem lanesInto?_of_entries (hn : (spots.flatMap fun s => s.line.items.map (·.id)).Nodup)
    (hs : spots = before ++ spot :: after) {layers : List (Id .layer)} {board : Board}
    {lineup : Lineup} (hline : board.line? spot.line.id = some lineup)
    (h : ∀ y ∈ layers,
      lineup.get? y = some (((Feeds.start.through before) y).entry y spot)) :
    lanesInto? ⟨spots⟩ layers board (before.length + 1) =
      some (layers.map fun y => ⟨y, .live ((Feeds.start.through (before ++ [spot])) y).carry⟩) := by
  have hlast : spot? ⟨spots⟩ before.length = some spot := by
    rw [hs]
    exact spot?_of_split
  rw [lanesInto?]
  simp only [hlast, hline]
  refine mapM_eq_some_map fun y hy => ?_
  rw [carryPast?_of_entry hn hs (h y hy), Option.map_some, Feeds.through, Feed.through_concat]
  rfl

theorem lanesInto?_of_shows (hn : (spots.flatMap fun s => s.line.items.map (·.id)).Nodup)
    (hs : spots = before ++ after) {layers : List (Id .layer)} {board : Board}
    (h : board.Shows layers .start before) :
    lanesInto? ⟨spots⟩ layers board before.length =
      some (layers.map fun y => ⟨y, .live ((Feeds.start.through before) y).carry⟩) := by
  rcases List.eq_nil_or_concat before with rfl | ⟨earlier, spot, rfl⟩
  · rfl
  · rw [List.concat_eq_append] at h hs ⊢
    rw [List.append_assoc, List.singleton_append] at hs
    have hspot := (Board.shows_append.mp h).2
    rw [List.length_append, List.length_singleton]
    refine lanesInto?_of_entries hn hs hspot.1 fun y hy => ?_
    rw [Feeds.get?_lineup, if_pos hy]

theorem mem_of_item? {order : RunningOrder} {id : Id .item} {origin : Spot} {item : Item}
    (h : order.item? id = some (origin, item)) :
    origin ∈ order.spots ∧ item ∈ origin.line.items ∧ item.id = id := by
  obtain ⟨owner, ho, hfound⟩ := List.exists_of_findSome?_eq_some h
  obtain ⟨found, hitem, heq⟩ := Option.map_eq_some_iff.mp hfound
  obtain ⟨rfl, rfl⟩ := Prod.mk.inj heq
  rw [Line.item?] at hitem
  exact ⟨ho, List.mem_of_find?_eq_some hitem, of_decide_eq_true (List.find?_some hitem :)⟩

theorem carryPast?_eq_some {order : RunningOrder} {lineup : Lineup} {layer : Id .layer}
    {carry : Carry} (h : order.carryPast? spot lineup layer = some (some carry)) :
    ∃ airing, lineup.get? layer = some (some airing) ∧
      ∃ origin ∈ order.spots, ∃ item ∈ origin.line.items,
        item.id = airing.origin ∧ item.layer = layer ∧ item.reach = airing.reach ∧
        origin.line.id = airing.originLine ∧ item.reach.lasts = true ∧
        carry = { Carry.start item origin with elapsed := addTime airing.elapsed spot.line.duration } := by
  rw [carryPast?] at h
  split at h
  · exact nomatch h
  · exact nomatch h
  · next airing hentry =>
    split at h
    · exact nomatch h
    · next origin item hitem =>
      obtain ⟨ho, hi, hid⟩ := mem_of_item? hitem
      split at h
      · next hfits =>
        obtain ⟨hlayer, hreach, hline⟩ := hfits
        split at h
        · next hlasts =>
          obtain rfl := Option.some.inj (Option.some.inj h)
          exact ⟨airing, hentry, origin, ho, item, hi, hid, hlayer, hreach, hline, hlasts, rfl⟩
        · exact nomatch h
      · exact nomatch h

theorem lanesInto?_eq_some {order : RunningOrder} {layers : List (Id .layer)} {board : Board}
    {last : Nat} {lanes : List Lane}
    (h : order.lanesInto? layers board (last + 1) = some lanes) :
    ∃ spot lineup, order.spot? last = some spot ∧ board.line? spot.line.id = some lineup ∧
      ∃ carry : Id .layer → Option Carry, lanes = layers.map (fun y => ⟨y, .live (carry y)⟩) ∧
        ∀ y ∈ layers, order.carryPast? spot lineup y = some (carry y) := by
  rw [lanesInto?] at h
  split at h
  · cases h
  · next spot hspot =>
    split at h
    · cases h
    · next lineup hline =>
      have each (y : Id .layer) (hy : y ∈ layers) :
          order.carryPast? spot lineup y = some ((order.carryPast? spot lineup y).getD none) := by
        obtain ⟨lane, hlane⟩ := Option.isSome_iff_exists.mp (isSome_of_mapM h y hy)
        obtain ⟨carry, hcarry, -⟩ := Option.map_eq_some_iff.mp hlane
        rw [hcarry]
        rfl
      refine ⟨spot, lineup, hspot, hline, _, ?_, each⟩
      refine Option.some.inj (h.symm.trans (mapM_eq_some_map fun y hy => ?_))
      rw [each y hy]
      rfl

end RunningOrder

end OnAir
