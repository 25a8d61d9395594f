import OnAir.Proofs.FullRun
import OnAir.Rundown.Change

set_option autoImplicit false

/-!
Where continued entries come from. A walk takes what goes on into its first line from the board, and
the board may be out of date. Whatever it shows, a continued entry on a walked line names an item
that the rundown declares on the layer, and which lasts. That the item stands on an earlier line, and
in the line's own segment where it ends with its segment, is so if it was so on the line before the
start (`Board.FitsBefore`); nothing looks at that where a walk begins.
-/
namespace OnAir

/-- An airing shows an item on, which a spot declares on a layer. -/
structure Airing.Continues (airing : Airing) (layer : Id .layer) (origin : Spot) (item : Item) :
    Prop where
  declared : item ∈ origin.line.items
  layer_eq : item.layer = layer
  item_eq : item.id = airing.origin
  line_eq : origin.line.id = airing.originLine
  reach_eq : item.reach = airing.reach
  lasts : airing.reach.lasts = true

/-- What the board shows on the last of the lines before a start is declared on one of them, and in
that line's segment if it ends with its segment. -/
def Board.FitsBefore (board : Board) (before after : List Spot) : Prop :=
  ∀ last ∈ before.getLast?, ∀ layer airing, board.onAir? last.line.id layer = some airing →
    airing.reach.lasts = true → ∀ origin ∈ before ++ after, origin.line.id = airing.originLine →
      origin ∈ before ∧ (airing.reach = .segmentEnd → origin.segment = last.segment)

theorem Reach.crosses_or (reach : Reach) (h : reach.lasts = true) :
    reach.crosses = true ∨ reach = .segmentEnd := by
  cases reach with
  | ownLine => exact nomatch h
  | nextItem => exact .inl rfl
  | segmentEnd => exact .inr rfl
  | rundownEnd => exact .inl rfl

namespace Feed

variable {feed : Feed} {layer : Id .layer} {spots : List Spot} {spot : Spot} {airing : Airing}

theorem mem_into_of_entry (h : feed.entry layer spot = some airing) (hc : airing.continued = true) :
    ∃ carry ∈ feed.into spot.segment, carry.airing = airing := by
  cases hd : spot.line.declared? layer with
  | some item =>
    rw [entry_of_declared hd] at h
    obtain rfl := Option.some.inj h
    exact nomatch hc
  | none =>
    rw [entry_of_not_declared hd] at h
    exact Option.map_eq_some_iff.mp h

/-- A continued entry shows an item of the spots that the feed comes from, and while the feed is in
scope, an item that ends with its segment is shown in that segment only. -/
theorem From.continues (hf : feed.From layer spots) (h : feed.entry layer spot = some airing)
    (hc : airing.continued = true) :
    ∃ origin ∈ spots, ∃ item, airing.Continues layer origin item ∧
      (feed.InScope → airing.reach = .segmentEnd → origin.segment = spot.segment) := by
  obtain ⟨carry, hinto, rfl⟩ := mem_into_of_entry h hc
  obtain ⟨origin, ho, item, hi, hlayer, hlasts, heq⟩ := hf carry (mem_carry_of_mem_into hinto)
  rw [heq] at hinto ⊢
  refine ⟨origin, ho, item, ⟨hi, hlayer, rfl, rfl, rfl, hlasts⟩, fun hscope hreach => ?_⟩
  have hcrosses : item.reach.crosses = false := by
    rw [show item.reach = .segmentEnd from hreach]
    rfl
  exact ((hscope.into hinto).2.resolve_left (hcrosses ▸ Bool.false_ne_true)).symm

end Feed

theorem Board.Shows.onAir? {board : Board} {layers : List (Id .layer)} {feeds : Feeds}
    {earlier later : List Spot} {spot : Spot} (h : board.Shows layers feeds (earlier ++ spot :: later))
    {layer : Id .layer} {airing : Airing}
    (hshown : board.onAir? spot.line.id layer = some airing) :
    layer ∈ layers ∧ ((feeds layer).through layer earlier).entry layer spot = some airing := by
  obtain ⟨hline, -⟩ := (Board.shows_append.mp h).2
  rw [Board.onAir?, hline, Option.bind_some, Lineup.onAir?, Feeds.get?_lineup] at hshown
  split at hshown
  · next hl => exact ⟨hl, hshown⟩
  · exact nomatch hshown

namespace RunningOrder

variable {order : RunningOrder} {layers : List (Id .layer)} {board : Board} {index : Nat}

theorem comes_of_carryPast? {last : Spot} {lineup : Lineup} (hline : board.line? last.line.id = some lineup)
    {before after : List Spot} (hs : order.spots = before ++ after) (hlast : before.getLast? = some last)
    {layer : Id .layer} {carry : Carry}
    (h : order.carryPast? last lineup layer = some (some carry)) :
    Feed.Comes layer order.spots carry ∧
      (board.FitsBefore before after → Feed.Comes layer before carry ∧ carry.reach.lasts = true ∧
        (carry.reach.crosses = true ∨ last.segment = carry.segment)) := by
  obtain ⟨airing, hentry, origin, ho, item, hi, -, hlayer, hreach, horigin, hlasts, rfl⟩ :=
    carryPast?_eq_some h
  refine ⟨⟨origin, ho, item, hi, hlayer, hlasts, rfl⟩, fun fits => ?_⟩
  have hshown : board.onAir? last.line.id layer = some airing := by
    rw [Board.onAir?, hline, Option.bind_some, Lineup.onAir?, hentry]
    rfl
  obtain ⟨hbefore, hsegment⟩ :=
    fits last hlast layer airing hshown (hreach ▸ hlasts) origin (hs ▸ ho) horigin
  refine ⟨⟨origin, hbefore, item, hi, hlayer, hlasts, rfl⟩, hlasts, ?_⟩
  exact (item.reach.crosses_or hlasts).imp_right fun hend => (hsegment (hreach.symm.trans hend)).symm

theorem feeds_of_lanesInto? {lanes : List Lane}
    (h : order.lanesInto? layers board index = some lanes) :
    ∃ feeds : Feeds, lanes = layers.map (fun y => ⟨y, .live (feeds y).carry⟩) ∧
      (∀ y, (feeds y).last = order.segmentBefore? index) ∧
      ∀ y ∈ layers, (feeds y).From y order.spots ∧
        (board.FitsBefore (order.spots.take index) (order.since index) →
          (feeds y).From y (order.spots.take index) ∧ (feeds y).InScope) := by
  cases index with
  | zero =>
    obtain rfl := Option.some.inj h
    exact ⟨.start, rfl, fun _ => rfl, fun y _ =>
      ⟨fun _ hc => (nomatch hc), fun _ => ⟨fun _ hc => (nomatch hc), Feed.start_inScope⟩⟩⟩
  | succ index =>
    obtain ⟨last, lineup, hspot, hline, carry, rfl, hcarry⟩ := lanesInto?_eq_some h
    have hlast : (order.spots.take (index + 1)).getLast? = some last := by
      rw [List.getLast?_take, if_neg (Nat.succ_ne_zero index), Nat.add_sub_cancel]
      exact congrArg (Option.or · _) hspot
    have hsplit : order.spots = order.spots.take (index + 1) ++ order.since (index + 1) :=
      (List.take_append_drop ..).symm
    have seeded {y : Id .layer} (hy : y ∈ layers) {c : Carry} (hc : c ∈ carry y) :=
      comes_of_carryPast? hline hsplit hlast ((hcarry y hy).trans (congrArg some hc))
    refine ⟨fun y => ⟨some last.segment, carry y⟩, rfl, fun _ => ?_, fun y hy => ⟨?_, fun fits => ⟨?_, ?_⟩⟩⟩
    · rw [segmentBefore?, hspot]
      rfl
    · exact fun c hc => (seeded hy hc).1
    · exact fun c hc => ((seeded hy hc).2 fits).1
    · exact fun c hc => ((seeded hy hc).2 fits).2.imp_right (Or.imp_right (congrArg some))

end RunningOrder

namespace Publisher

variable {publisher result : Publisher} {rundown : Rundown} {start : Option (Id .line)}
  {report : Report}

/-- A pass to the end notes what comes of some feeds, which come from the running order, and where
the board fits what stands before, from the lines before and in scope. -/
theorem feeds_of_pass {layers : List (Id .layer)} {order : RunningOrder} {index first : Nat}
    {pass : Pass} (h : publisher.pass layers order index .runToEnd .unset = .ok (first, pass)) :
    ∃ feeds : Feeds, pass.writes = (publisher.walk layers).updates feeds (order.since first) ∧
      pass.visited = (order.since first).length ∧
      ∀ y ∈ layers, (feeds y).From y order.spots ∧
        (publisher.board.FitsBefore (order.spots.take first) (order.since first) →
          (feeds y).From y (order.spots.take first) ∧ (feeds y).InScope) := by
  obtain ⟨lanes, mode, hlanes, hrun, hmode⟩ := pass_ok h
  obtain rfl : mode = .runToEnd := by
    rcases hmode with ⟨-, hmode⟩ | ⟨-, -, hmode⟩
    · cases mode with
      | suffix => exact nomatch hmode rfl
      | runToEnd => rfl
    · exact hmode
  obtain ⟨feeds, rfl, hlast, hfrom⟩ := RunningOrder.feeds_of_lanesInto? hlanes
  have on : ∀ y ∈ layers, OnTrack publisher.board y (feeds y) (order.since first)
      (.live (feeds y).carry) := fun _ _ => .inl rfl
  have hwalk := Walk.run_runToEnd (publisher.walk layers) hlast on 0
  obtain ⟨hwrites, hvisited⟩ : pass.writes = (publisher.walk layers).updates feeds (order.since first) ∧
      pass.visited = 0 + (order.since first).length := by
    cases hchecks : (order.since first).forM fun spot => spot.line.check layers with
    | error fault => exact nomatch hrun.symm.trans (hwalk.trans (congrArg _ hchecks))
    | ok =>
      have hpass := hrun.symm.trans (hwalk.trans (congrArg _ hchecks))
      obtain rfl := Outcome.done.inj (Except.ok.inj hpass)
      exact ⟨rfl, rfl⟩
  exact ⟨feeds, hwrites, hvisited.trans (Nat.zero_add _), hfrom⟩

theorem shows_of_recompute
    (h : publisher.recompute rundown start .runToEnd .unset = (.ok report, result)) :
    ∃ before walked, rundown.spots = before ++ walked ∧
      report.start = walked.head?.map (·.line.id) ∧ report.visited = walked.length ∧
      ∃ feeds : Feeds, result.board.Shows rundown.layerIds feeds walked ∧
        ∀ y ∈ rundown.layerIds, (feeds y).From y rundown.spots ∧
          (publisher.board.FitsBefore before walked →
            (feeds y).From y before ∧ (feeds y).InScope) := by
  obtain ⟨distinct, index, first, pass, -, hpass, hpublish⟩ := update_ok h
  obtain ⟨feeds, hwrites, hvisited, hfrom⟩ := feeds_of_pass hpass
  have hsplit : rundown.spots = rundown.spots.take first ++ rundown.spots.drop first :=
    (List.take_append_drop ..).symm
  have hnodup := distinct.lineIds_nodup hsplit
  rw [List.map_append] at hnodup
  have hin : ∀ spot ∈ rundown.spots.drop first,
      RunningOrder.contains ⟨rundown.spots⟩ spot.line.id = true := fun spot hs =>
    RunningOrder.contains_iff.mpr (List.mem_map_of_mem (List.mem_of_mem_drop hs))
  have shows := shows_publish (List.nodup_append.mp hnodup).2.1 hin rfl hwrites .runToEnd first []
  rw [hpublish] at shows
  have hstart : report.start = (rundown.spots.drop first).head?.map (·.line.id) := by
    rw [List.head?_drop]
    exact congrArg (fun published => published.1.start) hpublish.symm
  have hcount : report.visited = pass.visited :=
    congrArg (fun published => published.1.visited) hpublish.symm
  exact ⟨_, _, hsplit, hstart, hcount.trans hvisited, feeds, shows, hfrom⟩

/-- After a recompute to the end, every continued entry on a walked line names an item that the
rundown declares on the layer, and which lasts. It stands on an earlier line, and in the same segment
if it ends with its segment, where that is so for the line before the start. -/
theorem recompute_runToEnd_continues
    (h : publisher.recompute rundown start .runToEnd .unset = (.ok report, result)) :
    ∃ before walked, rundown.spots = before ++ walked ∧
      report.start = walked.head?.map (·.line.id) ∧ report.visited = walked.length ∧
      ∀ earlier spot later, walked = earlier ++ spot :: later → ∀ layer airing,
        result.board.onAir? spot.line.id layer = some airing → airing.continued = true →
          ∃ origin ∈ rundown.spots, ∃ item, airing.Continues layer origin item ∧
            (publisher.board.FitsBefore before walked → origin ∈ before ++ earlier ∧
              (airing.reach = .segmentEnd → origin.segment = spot.segment)) := by
  obtain ⟨before, walked, hsplit, hstart, hvisited, feeds, shows, from_⟩ := shows_of_recompute h
  refine ⟨before, walked, hsplit, hstart, hvisited, ?_⟩
  rintro earlier spot later rfl layer airing hshown hcontinued
  obtain ⟨hlayer, hentry⟩ := shows.onAir? hshown
  obtain ⟨hfrom, hfits⟩ := from_ layer hlayer
  have hpast : before ++ earlier ⊆ rundown.spots := by
    rw [hsplit, ← List.append_assoc]
    exact List.subset_append_left ..
  by_cases fits : publisher.board.FitsBefore before (earlier ++ spot :: later)
  · obtain ⟨hbefore, hscope⟩ := hfits fits
    obtain ⟨origin, ho, item, continues, hsegment⟩ :=
      (hbefore.through earlier).continues hentry hcontinued
    exact ⟨origin, hpast ho, item, continues, fun _ => ⟨ho, hsegment (hscope.through layer earlier)⟩⟩
  · obtain ⟨origin, ho, item, continues, -⟩ := (hfrom.through earlier).continues hentry hcontinued
    have hmem : origin ∈ rundown.spots :=
      (List.mem_append.mp ho).elim id fun he => hpast (List.mem_append_right _ he)
    exact ⟨origin, hmem, item, continues, fun h => absurd h fits⟩

/-- The board shows the logo as one that stays on from segment to segment. It has been made one that
ends with its segment, so a run from the weather walks all lines. -/
theorem recompute_outdatedBulletin_continues :
    let outdated := (Rundown.bulletin.modifyItem? ⟨"logo"⟩ fun item =>
      { item with reach := .segmentEnd }).elim Rundown.bulletin Prod.snd
    ∃ report result,
      Publisher.recompute (Rundown.bulletin.fullRun .standard).2 outdated (some ⟨"weather"⟩) .runToEnd
        false = (.ok report, result) ∧
      report.start = some ⟨"headlines"⟩ ∧
      ∃ airing, result.board.onAir? ⟨"report"⟩ ⟨"graphics"⟩ = some airing ∧
        ∃ origin item, airing.Continues ⟨"graphics"⟩ origin item ∧ origin.line.id = ⟨"headlines"⟩ ∧
          origin.segment = ⟨"news"⟩ := by
  intro outdated
  let result := Publisher.recompute (Rundown.bulletin.fullRun .standard).2 outdated
    (some ⟨"weather"⟩) .runToEnd .unset
  have hrun : result = (.ok ⟨some ⟨"headlines"⟩, .runToEnd, 3, 3, false, 0, 2⟩, result.2) := rfl
  have hairing : result.2.board.onAir? ⟨"report"⟩ ⟨"graphics"⟩ =
      some ⟨⟨"logo"⟩, ⟨"headlines"⟩, .segmentEnd, true, 30000, none⟩ := by decide +kernel
  obtain ⟨before, walked, hsplit, -, hvisited, continues⟩ := recompute_runToEnd_continues hrun
  have hall : before = [] := by
    have hlength : outdated.spots.length = before.length + walked.length := by
      rw [hsplit, List.length_append]
    rw [← hvisited] at hlength
    exact List.length_eq_zero_iff.mp (Nat.add_right_cancel (hlength.symm.trans (Nat.zero_add 3).symm))
  subst hall
  obtain ⟨origin, -, item, hitem, hfits⟩ := continues _ _ _ (hsplit.symm.trans rfl : walked =
    [⟨⟨"news"⟩, outdated.lines[0]⟩] ++ ⟨⟨"news"⟩, outdated.lines[1]⟩ :: _) _ _ hairing rfl
  obtain ⟨-, hsegment⟩ := hfits fun _ h => nomatch h
  exact ⟨_, _, hrun, rfl, _, hairing, origin, item, hitem, hitem.line_eq, hsegment rfl⟩

/-- The headlines, with the logo, are moved behind the weather after the board was published. Nothing
else looks out of date on the line before the weather, so a run from there keeps the logo on. -/
theorem recompute_movedBulletin_continues :
    let moved := ((Change.moveLine ⟨"headlines"⟩ ⟨"outlook"⟩ 1).apply Rundown.bulletin).2
    let result := Publisher.recompute (Rundown.bulletin.fullRun .standard).2 moved
      (some ⟨"weather"⟩) .runToEnd .unset
    moved.lines.map (·.id) = [⟨"report"⟩, ⟨"weather"⟩, ⟨"headlines"⟩] ∧
    result.1 = .ok ⟨some ⟨"weather"⟩, .runToEnd, 2, 0, false, 0, 1⟩ ∧
    result.2.board.onAir? ⟨"weather"⟩ ⟨"graphics"⟩ =
      some ⟨⟨"logo"⟩, ⟨"headlines"⟩, .nextItem, true, 120000, none⟩ :=
  ⟨rfl, rfl, rfl⟩

end Publisher

end OnAir
