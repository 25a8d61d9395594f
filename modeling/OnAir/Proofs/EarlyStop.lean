import OnAir.Proofs.FullRun

set_option autoImplicit false

namespace OnAir

/-- A board that is right, after some old lines, on the lines that stay can be trusted when at most
one new line stands in place of the old ones. -/
theorem Board.Shows.trusts_replaced {board : Board} {layers layers' : List (Id .layer)}
    (hl : ∀ y ∈ layers, y ∈ layers') {feeds feeds' : Feeds} (hf : feeds.InScope)
    (hf' : feeds'.InScope) {new after : List Spot} (hnew : new.length ≤ 1)
    (h : board.Shows layers' feeds' after) : board.Trusts layers false feeds (new ++ after) := by
  match new, hnew with
  | [], _ =>
    cases after with
    | nil => trivial
    | cons first rest =>
      exact ⟨fun hs => (nomatch hs), trusts hl (hf.past first) (hf'.past first) h.2⟩
  | [line], _ => exact ⟨fun hs => (nomatch hs), h.trusts hl (hf.past line) hf'⟩

theorem exists_append_of_walked {new after walked left : List Spot} (hnew : new.length ≤ 1)
    (hsplit : new ++ after = walked ++ left) (hfirst : walked = [] → left = []) :
    ∃ part, after = part ++ left := by
  cases walked with
  | nil => exact ⟨after, by rw [hfirst rfl, List.append_nil]⟩
  | cons spot walked =>
    match new, hnew with
    | [], _ => exact ⟨spot :: walked, hsplit⟩
    | [line], _ => exact ⟨walked, (List.cons.inj hsplit).2⟩

namespace Publisher

variable {publisher : Publisher} {rundown : Rundown} {start : Option (Id .line)}
  {removed : List (Id .line)} {before new after : List Spot}

theorem update_suffix_replaced (sound : rundown.Sound)
    (hs : rundown.spots = before ++ (new ++ after)) (hnew : new.length ≤ 1)
    (hi : startIndex ⟨before ++ (new ++ after)⟩ start = .ok before.length)
    {layers : List (Id .layer)} (hl : ∀ y, y ∈ layers ↔ y ∈ rundown.layerIds) {old : List Spot}
    (hbefore : publisher.board.Shows layers .start before)
    (hafter : publisher.board.Shows layers (Feeds.start.through (before ++ old)) after) :
    ∃ report result, publisher.update rundown start .suffix .unset removed = (.ok report, result) ∧
      Refreshed rundown removed publisher.board result.board := by
  have inScope (spots : List Spot) : (Feeds.start.through spots).InScope :=
    Feeds.start_inScope.through spots
  have hbefore' := hbefore.layers_congr hl
  have trust := hafter.trusts_replaced (fun y hy => (hl y).mpr hy) (inScope before)
    (inScope (before ++ old)) hnew
  obtain ⟨report, result, walked, left, hsplit, hfirst, hupdate, published, agrees⟩ :=
    update_suffix sound.toDistinct hs hi hbefore' trust fun spot hm =>
      sound.check (hs ▸ List.mem_append_right before hm)
  obtain ⟨part, hpart⟩ := exists_append_of_walked hnew hsplit hfirst
  rw [hpart] at hafter
  have hleft := ((Board.shows_append.mp hafter).2.layers_congr hl).of_agrees agrees
  exact ⟨report, result, hupdate, published.refreshed sound.toDistinct hs hsplit hbefore' hleft⟩

/-- Stopping early never changes the result: an update from the first line that may differ shows
what a full run shows, if the board showed that for the rundown as it was. -/
theorem recompute_suffix_eq_fullRun {rundown₀ rundown₁ : Rundown} {settings₀ settings₁ : Settings}
    {report₀ report₁ : Report} {full₀ full₁ : Publisher}
    (hfull₀ : rundown₀.fullRun settings₀ = (.ok report₀, full₀))
    (hfull₁ : rundown₁.fullRun settings₁ = (.ok report₁, full₁))
    (hlayers : ∀ layer, layer ∈ rundown₀.layerIds ↔ layer ∈ rundown₁.layerIds)
    {before old new after : List Spot} (hold : rundown₀.spots = before ++ old ++ after)
    (hnew : rundown₁.spots = before ++ new ++ after) (hone : new.length ≤ 1) {first : Spot}
    (hfirst : (new ++ after).head? = some first) (publisher : Publisher)
    (held : ∀ spot ∈ before ++ after,
      publisher.board.line? spot.line.id = full₀.board.line? spot.line.id) :
    ∃ report result,
      publisher.recompute rundown₁ (some first.line.id) .suffix .unset = (.ok report, result) ∧
      ∀ spot ∈ rundown₁.spots,
        result.board.line? spot.line.id = full₁.board.line? spot.line.id := by
  obtain ⟨-, current₀⟩ := Rundown.fullRun_ok hfull₀
  obtain ⟨sound₁, current₁⟩ := Rundown.fullRun_ok hfull₁
  have shows := current₀.shows
  rw [hold] at shows
  obtain ⟨showsPrefix, showsAfter⟩ := Board.shows_append.mp shows
  have hbefore : publisher.board.Shows rundown₀.layerIds .start before :=
    (Board.shows_congr fun spot hs => held spot (List.mem_append_left after hs)).mpr
      (Board.shows_append.mp showsPrefix).1
  have hafter : publisher.board.Shows rundown₀.layerIds (Feeds.start.through (before ++ old)) after :=
    (Board.shows_congr fun spot hs => held spot (List.mem_append_right before hs)).mpr showsAfter
  rw [List.append_assoc] at hnew
  obtain ⟨rest, hrest⟩ := List.head?_eq_some_iff.mp hfirst
  have hi : startIndex ⟨before ++ (new ++ after)⟩ (some first.line.id) = .ok before.length := by
    have hnodup := sound₁.lineIds_nodup hnew
    rw [hrest] at hnodup ⊢
    exact startIndex_of_split hnodup
  obtain ⟨report, result, hupdate, refreshed⟩ :=
    update_suffix_replaced sound₁ hnew hone hi hlayers hbefore hafter
  exact ⟨report, result, hupdate, refreshed.shows.unique current₁.shows⟩

end Publisher

namespace Rundown

/-- The bulletin with an interview, and a caption of its own, in place of the report. -/
def lateBulletin : Rundown where
  id := ⟨"bulletin"⟩
  name := "Bulletin"
  active := true
  layers := [⟨⟨"graphics"⟩, "Graphics", .graphics⟩]
  segments := [
    ⟨⟨"news"⟩, "News", [
      ⟨⟨"headlines"⟩, "Headlines", 30000, [⟨⟨"logo"⟩, ⟨"graphics"⟩, 0, .nextItem, .empty⟩]⟩,
      ⟨⟨"interview"⟩, "Interview", 90000, [⟨⟨"caption"⟩, ⟨"graphics"⟩, 5000, .ownLine, .empty⟩]⟩]⟩,
    ⟨⟨"outlook"⟩, "Outlook", [⟨⟨"weather"⟩, "Weather", 60000, []⟩]⟩]

theorem lateBulletin_sound : lateBulletin.Sound :=
  ⟨⟨by decide, by decide, by decide, by decide⟩, by decide, by decide⟩

end Rundown

theorem Publisher.recompute_lateBulletin_eq_fullRun :
    ∃ report result,
      (Rundown.bulletin.fullRun .standard).2.recompute Rundown.lateBulletin (some ⟨"interview"⟩) .suffix
        false = (.ok report, result) ∧
      ∀ spot ∈ Rundown.lateBulletin.spots, result.board.line? spot.line.id =
        (Rundown.lateBulletin.fullRun .standard).2.board.line? spot.line.id := by
  obtain ⟨report₀, full₀, hfull₀, -⟩ := Rundown.fullRun_of_sound Rundown.bulletin_sound .standard
  obtain ⟨report₁, full₁, hfull₁, -⟩ := Rundown.fullRun_of_sound Rundown.lateBulletin_sound .standard
  rw [hfull₀, hfull₁]
  exact recompute_suffix_eq_fullRun hfull₀ hfull₁ (fun _ => Iff.rfl)
    (show Rundown.bulletin.spots = Rundown.bulletin.spots.take 1 ++ [_] ++ [_] from rfl)
    (show Rundown.lateBulletin.spots = Rundown.bulletin.spots.take 1 ++ [_] ++ [_] from rfl) (Nat.le_refl 1)
    rfl full₀ fun _ _ => rfl

end OnAir
