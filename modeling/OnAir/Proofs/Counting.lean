import Mathlib.Data.List.Count
import Mathlib.Data.List.Perm.Basic
import OnAir.Proofs.Update

set_option autoImplicit false

namespace OnAir

namespace IdMap

variable {kind : Kind} {ν : Type}

theorem keys_nodup (m : IdMap kind ν) : m.keys.Nodup :=
  (List.pairwise_map.mpr m.increasing).imp Id.ne_of_lt

theorem size_eq_add (m : IdMap kind ν) (keep : Id kind → Bool) :
    m.size = (m.filter keep).size + m.keys.countP fun k => !keep k := by
  rw [size, List.length_eq_countP_add_countP fun e => keep e.1, size, filter, keys, List.countP_map,
    ← List.countP_eq_length_filter]
  congr 1
  exact List.countP_congr fun e _ => by simp

theorem size_erase (m : IdMap kind ν) (k : Id kind) :
    (m.erase k).size + (if (m.get? k).isSome then 1 else 0) = m.size := by
  rw [m.size_eq_add fun x => !decide (x = k), erase]
  congr 1
  simp only [Bool.not_not]
  change _ = m.keys.count k
  rw [m.keys_nodup.count]
  simp only [mem_keys_iff]

end IdMap

theorem countP_mem_of_sublist {α : Type} [DecidableEq α] {l l' : List α} (h : l.Sublist l')
    (hn : l'.Nodup) : l'.countP (fun x => decide (x ∈ l)) = l.length := by
  rw [List.countP_eq_length_filter]
  refine List.Perm.length_eq ((List.perm_ext_iff_of_nodup (hn.filter _) (h.nodup hn)).mpr fun x => ?_)
  rw [List.mem_filter, decide_eq_true_eq]
  exact and_iff_right_of_imp fun hx => h.subset hx

namespace Board

def changesTo (old new : Board) (lines : List Line) : Nat :=
  lines.countP fun line => new.line? line.id ≠ old.line? line.id

def lossesTo (old new : Board) : Nat := old.lines.keys.countP fun id => (new.line? id).isNone

variable {old new : Board}

theorem changesTo_eq_zero (lines : List Line)
    (h : ∀ line ∈ lines, new.line? line.id = old.line? line.id) : old.changesTo new lines = 0 :=
  List.countP_eq_zero.mpr fun line hl hne => of_decide_eq_true hne (h line hl)

theorem lossesTo_eq_zero (h : ∀ id, new.line? id = old.line? id) : old.lossesTo new = 0 := by
  refine List.countP_eq_zero.mpr fun id hid hnone => ?_
  rw [h id, Option.isNone_iff_eq_none] at hnone
  exact Option.not_isSome_iff_eq_none.mpr hnone (IdMap.mem_keys_iff.mp hid)

theorem lossesTo_congr {new' : Board} (h : ∀ id, new.line? id = new'.line? id) :
    old.lossesTo new = old.lossesTo new' :=
  List.countP_congr fun id _ => by rw [h id]

theorem size_eq_add_lossesTo
    (h : ∀ id, new.line? id = none ∨ new.line? id = old.line? id) :
    old.lines.size = new.lines.size + old.lossesTo new := by
  have hnew : new.lines = old.lines.filter fun id => (new.line? id).isSome := by
    refine IdMap.ext fun id => ?_
    rw [IdMap.get?_filter]
    rcases h id with hid | hid
    · rw [hid]
      exact hid
    · split
      · exact hid
      · next hnone => exact Option.not_isSome_iff_eq_none.mp hnone
  have hcount := old.lines.size_eq_add fun id => (new.line? id).isSome
  rw [← hnew] at hcount
  rw [hcount, lossesTo]
  congr 2
  funext id
  exact Option.not_isSome _

theorem version_putAll (board : Board) (writes : List (Id .line × Lineup)) :
    (board.putAll writes).version = board.version := by
  induction writes generalizing board with
  | nil => rfl
  | cons write rest ih => exact ih (board.put write.1 write.2)

theorem version_forget (board : Board) (ids : List (Id .line)) :
    (board.forget ids).2.version = board.version := by
  induction ids generalizing board with
  | nil => rfl
  | cons id rest ih => exact ih (board.drop id)

theorem size_forget (board : Board) (ids : List (Id .line)) :
    board.lines.size = (board.forget ids).2.lines.size + (board.forget ids).1 := by
  induction ids generalizing board with
  | nil => rfl
  | cons id rest ih =>
    have herase := board.lines.size_erase id
    have hrest := ih (board.drop id)
    change _ = ((board.drop id).forget rest).2.lines.size +
      (if (board.line? id).isSome then ((board.drop id).forget rest).1 + 1
        else ((board.drop id).forget rest).1)
    change (board.drop id).lines.size + (if (board.line? id).isSome then 1 else 0) = _ at herase
    by_cases h : (board.line? id).isSome = true
    · rw [if_pos h] at herase ⊢
      omega
    · rw [if_neg h] at herase ⊢
      omega

theorem forget_count (board : Board) (ids : List (Id .line)) :
    (board.forget ids).1 = board.lossesTo (board.forget ids).2 := by
  have hsub (id : Id .line) : (board.forget ids).2.line? id = none ∨
      (board.forget ids).2.line? id = board.line? id := by
    rw [line?_forget]
    split
    · exact .inl rfl
    · exact .inr rfl
  have hlosses := size_eq_add_lossesTo hsub
  have hsize := board.size_forget ids
  omega

end Board

namespace Publisher

variable {publisher : Publisher} {order : RunningOrder} {removed : List (Id .line)} {start : Nat}
  {pass : Pass}

theorem line?_prune_sub (publisher : Publisher) (order : RunningOrder) (start : Nat) (pass : Pass)
    (removed : List (Id .line)) (id : Id .line) :
    (publisher.prune order start pass removed).2.line? id = none ∨
      (publisher.prune order start pass removed).2.line? id = publisher.board.line? id := by
  rw [line?_prune]
  split
  · exact .inr rfl
  · split
    · exact .inl rfl
    · exact .inr rfl

theorem version_prune (publisher : Publisher) (order : RunningOrder) (start : Nat) (pass : Pass)
    (removed : List (Id .line)) :
    (publisher.prune order start pass removed).2.version = publisher.board.version := by
  rw [prune_eq]
  dsimp only
  split
  · exact Board.version_forget ..
  · exact Board.version_forget ..

theorem prune_count (publisher : Publisher) (order : RunningOrder) (start : Nat) (pass : Pass)
    (removed : List (Id .line)) :
    (publisher.prune order start pass removed).1 =
      publisher.board.lossesTo (publisher.prune order start pass removed).2 := by
  have hlosses := Board.size_eq_add_lossesTo (line?_prune_sub publisher order start pass removed)
  have hforget := publisher.board.size_forget (removed.filter fun id => !order.contains id)
  rw [prune_eq] at hlosses ⊢
  dsimp only at hlosses ⊢
  split
  · next hd =>
    rw [if_pos hd] at hlosses
    have hle := Board.size_keep_le
      (publisher.board.forget (removed.filter fun id => !order.contains id)).2 order.contains
    dsimp only at hlosses ⊢
    omega
  · next hd =>
    rw [if_neg hd] at hlosses
    omega

end Publisher

/-- A board stays as it is, or goes over to a new version that shows something else. -/
def Board.Becomes (old new : Board) : Prop :=
  new = old ∨ (new.version = old.version + 1 ∧ new.sameLines old = false)

/-- A report gives the new version, and counts what the new board shows otherwise on some lines and
what it has lost. -/
structure Report.Counts (report : Report) (lines : List Line) (old new : Board) : Prop where
  version : report.version = new.version
  changed : report.changed = old.changesTo new lines
  pruned : report.pruned = old.lossesTo new

theorem Board.becomes_of_counts {old new : Board} {lines : List Line} {changed pruned : Nat}
    (hchanged : changed = old.changesTo new lines) (hpruned : pruned = old.lossesTo new)
    (hsame : changed = 0 ∧ pruned = 0 → new = old)
    (hnew : ¬ (changed = 0 ∧ pruned = 0) → new.version = old.version + 1) : old.Becomes new := by
  by_cases h : changed = 0 ∧ pruned = 0
  · exact .inl (hsame h)
  · refine .inr ⟨hnew h, Bool.eq_false_iff.mpr fun heq => h ?_⟩
    have hline := sameLines_iff.mp heq
    exact ⟨hchanged.trans (changesTo_eq_zero lines fun line _ => hline line.id),
      hpruned.trans (lossesTo_eq_zero hline)⟩

namespace Publisher

variable {publisher : Publisher} {order : RunningOrder} {removed : List (Id .line)} {start : Nat}
  {pass : Pass}

theorem line?_publish_ne_iff (hkeys : (pass.writes.map (·.1)).Sublist order.lineIds)
    (hn : order.lineIds.Nodup)
    (hfresh : ∀ write ∈ pass.writes, publisher.board.line? write.1 ≠ some write.2) (mode : Mode)
    {id : Id .line} (hid : id ∈ order.lineIds) :
    (publisher.publish order mode start pass removed).2.board.line? id ≠ publisher.board.line? id ↔
      id ∈ pass.writes.map (·.1) := by
  rw [line?_publish_of_contains (RunningOrder.contains_iff.mpr hid)]
  constructor
  · exact fun hne => Classical.byContradiction fun hm => hne (Board.line?_putAll_of_not_mem hm)
  · intro hm heq
    obtain ⟨write, hw, rfl⟩ := List.mem_map.mp hm
    rw [Board.line?_putAll_of_mem (hkeys.nodup hn) hw] at heq
    exact hfresh write hw heq.symm

theorem isNone_publish (hkeys : (pass.writes.map (·.1)).Sublist order.lineIds)
    (hn : order.lineIds.Nodup) (mode : Mode) {id : Id .line}
    (hid : (publisher.board.line? id).isSome = true) :
    ((publisher.publish order mode start pass removed).2.board.line? id).isNone =
      ((publisher.prune order start pass removed).2.line? id).isNone := by
  by_cases hm : id ∈ pass.writes.map (·.1)
  · have hcontains := RunningOrder.contains_iff.mpr (hkeys.subset hm)
    obtain ⟨write, hw, rfl⟩ := List.mem_map.mp hm
    obtain ⟨lineup, hlineup⟩ := Option.isSome_iff_exists.mp hid
    rw [line?_publish_of_contains hcontains, Board.line?_putAll_of_mem (hkeys.nodup hn) hw,
      line?_prune, if_pos hcontains, hlineup]
    rfl
  · rw [line?_publish, Board.line?_putAll_of_not_mem hm]

/-- What is published for a pass that notes each line of the order once, and only where it differs. -/
theorem publish_counts (hkeys : (pass.writes.map (·.1)).Sublist order.lineIds)
    (hn : order.lineIds.Nodup)
    (hfresh : ∀ write ∈ pass.writes, publisher.board.line? write.1 ≠ some write.2) {lines : List Line}
    (hlines : lines.map (·.id) = order.lineIds) (mode : Mode) (start : Nat)
    (removed : List (Id .line)) :
    publisher.board.Becomes (publisher.publish order mode start pass removed).2.board ∧
      (publisher.publish order mode start pass removed).1.Counts lines publisher.board
        (publisher.publish order mode start pass removed).2.board := by
  have hchanged : pass.writes.length =
      publisher.board.changesTo (publisher.publish order mode start pass removed).2.board lines := by
    have hlength : pass.writes.length = (pass.writes.map (·.1)).length := (List.length_map _).symm
    rw [hlength, ← countP_mem_of_sublist hkeys hn, ← hlines, List.countP_map]
    refine List.countP_congr fun line hl => ?_
    have hid : line.id ∈ order.lineIds := hlines ▸ List.mem_map_of_mem hl
    simp only [Function.comp_apply, decide_eq_true_eq]
    exact (line?_publish_ne_iff hkeys hn hfresh mode hid).symm
  have hpruned : (publisher.prune order start pass removed).1 =
      publisher.board.lossesTo (publisher.publish order mode start pass removed).2.board := by
    rw [prune_count, Board.lossesTo, Board.lossesTo]
    refine List.countP_congr fun id hid => ?_
    rw [isNone_publish hkeys hn mode (IdMap.mem_keys_iff.mp hid)]
  refine ⟨Board.becomes_of_counts hchanged hpruned (fun h => if_pos h) fun h => ?_,
    rfl, hchanged, hpruned⟩
  have hversion := (Board.version_putAll (publisher.prune order start pass removed).2
    pass.writes).trans (version_prune ..)
  exact (congrArg Board.version (if_neg h)).trans (congrArg (· + 1) hversion)

theorem forget_counts (publisher : Publisher) (ids : List (Id .line)) {lines : List Line}
    (hkept : ∀ line ∈ lines, line.id ∉ ids) :
    publisher.board.Becomes (publisher.forget ids).2.board ∧
      (publisher.forget ids).1.Counts lines publisher.board (publisher.forget ids).2.board := by
  have hchanged : 0 = publisher.board.changesTo (publisher.forget ids).2.board lines := by
    refine (Board.changesTo_eq_zero lines fun line hl => ?_).symm
    rw [line?_forget, if_neg (hkept line hl)]
  have hpruned : (publisher.board.forget ids).1 =
      publisher.board.lossesTo (publisher.forget ids).2.board := by
    rw [Board.forget_count]
    exact Board.lossesTo_congr fun id =>
      (Board.line?_forget publisher.board ids id).trans (publisher.line?_forget ids id).symm
  refine ⟨Board.becomes_of_counts hchanged hpruned (fun h => if_pos h.2) fun h => ?_,
    rfl, hchanged, hpruned⟩
  exact (congrArg Board.version (if_neg fun hzero => h ⟨rfl, hzero⟩)).trans
    (congrArg (· + 1) (Board.version_forget publisher.board ids))

theorem update_counts {rundown : Rundown} {start : Option (Id .line)} {mode : Mode} {token : Token}
    {report : Report} {result : Publisher}
    (h : publisher.update rundown start mode token removed = (.ok report, result)) :
    publisher.board.Becomes result.board ∧
      report.Counts rundown.lines publisher.board result.board := by
  obtain ⟨distinct, index, first, pass, -, hpass, hpublish⟩ := update_ok (update_of_token h)
  obtain ⟨hkeys, hfresh⟩ := pass_writes hpass
  have hcounts := publish_counts hkeys (distinct.lineIds_nodup rfl) hfresh
    rundown.map_lineId_spots.symm mode first removed
  rw [hpublish] at hcounts
  exact hcounts

end Publisher

end OnAir
