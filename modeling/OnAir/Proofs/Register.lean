import Mathlib.Data.List.Nodup
import OnAir.RunningOrder

set_option autoImplicit false

/-!
What is read into a register. The loops over layers, segments, lines and items take one name after
another. As long as none repeats, the tables have exactly the names that were read (`IdMap.Covers`)
and the register is that of the lines that were read (`Register.of`); the first that repeats is
refused.
-/
namespace OnAir

def Line.names (line : Line) : List Name := line.id.name :: line.items.map fun item => item.id.name

def Segment.names (segment : Segment) : List Name :=
  segment.id.name :: segment.lines.flatMap Line.names

theorem Line.kind_of_mem_names (line : Line) {name : Name} (h : name ∈ line.names) :
    name.kind = .line ∨ name.kind = .item := by
  rcases List.mem_cons.mp h with rfl | h
  · exact .inl rfl
  · obtain ⟨item, -, rfl⟩ := List.mem_map.mp h
    exact .inr rfl

/-- Every identifier that has to be unique: the layers, then the rest as it is written. -/
def Rundown.names (rundown : Rundown) : List Name :=
  rundown.layers.map (fun layer => layer.id.name) ++ rundown.segments.flatMap Segment.names

def FirstRepeat {α : Type} (l : List α) (x : α) : Prop :=
  ∃ before after, l = before ++ x :: after ∧ before.Nodup ∧ x ∈ before

namespace FirstRepeat

variable {α : Type} {l : List α} {x y : α}

theorem unique (hx : FirstRepeat l x) (hy : FirstRepeat l y) : x = y := by
  obtain ⟨before, after, rfl, nodup, hx⟩ := hx
  obtain ⟨before', after', hsplit, nodup', hy⟩ := hy
  -- Of two such places, the earlier one and its repeat would both be part of what stands before
  -- the other.
  rcases List.append_eq_append_iff.mp hsplit with ⟨between, rfl, hrest⟩ | ⟨between, rfl, hrest⟩
  · cases between with
    | nil => exact (List.cons.inj hrest).1
    | cons z between => grind
  · cases between with
    | nil => exact (List.cons.inj hrest).1.symm
    | cons z between => grind

theorem not_nodup (h : FirstRepeat l x) : ¬ l.Nodup := by
  obtain ⟨before, after, rfl, -, hx⟩ := h
  exact fun nodup => (List.nodup_append.mp nodup).2.2 x hx x List.mem_cons_self rfl

theorem append (h : FirstRepeat l x) (l' : List α) : FirstRepeat (l ++ l') x := by
  obtain ⟨before, after, rfl, nodup, hx⟩ := h
  exact ⟨before, after ++ l', by rw [List.append_assoc, List.cons_append], nodup, hx⟩

end FirstRepeat

/-- What reading some names comes to, after others of which none repeats: something right, or the
fault of the first that repeats. -/
inductive Reads {α : Type} (seen names : List Name) (right : α → Prop) : Except Fault α → Prop where
  | done {a : α} : (seen ++ names).Nodup → right a → Reads seen names right (.ok a)
  | repeats {name : Name} : FirstRepeat (seen ++ names) name →
    Reads seen names right (.error (.duplicate name))

namespace Reads

variable {α β : Type} {seen names names' : List Name} {right : α → Prop} {right' : β → Prop}
  {x : Except Fault α}

theorem bind {f : α → Except Fault β} (hx : Reads seen names right x)
    (hf : ∀ a, right a → (seen ++ names).Nodup → Reads (seen ++ names) names' right' (f a)) :
    Reads seen (names ++ names') right' (x >>= f) := by
  cases hx with
  | repeats first => exact .repeats (List.append_assoc .. ▸ first.append names')
  | done nodup ok =>
    have hnext := hf _ ok nodup
    change Reads seen (names ++ names') right' (f _)
    generalize f _ = next at hnext ⊢
    cases hnext with
    | done nodup' ok' => exact .done (List.append_assoc .. ▸ nodup') ok'
    | repeats first => exact .repeats (List.append_assoc .. ▸ first)

theorem map {f : α → β} (hx : Reads seen names right x) (hf : ∀ a, right a → right' (f a)) :
    Reads seen names right' (x >>= fun a => pure (f a)) := by
  cases hx with
  | repeats first => exact .repeats first
  | done nodup ok => exact .done nodup (hf _ ok)

theorem imp {right' : α → Prop} (hx : Reads seen names right x) (hf : ∀ a, right a → right' a) :
    Reads seen names right' x := by
  cases hx with
  | repeats first => exact .repeats first
  | done nodup ok => exact .done nodup (hf _ ok)

theorem foldlM {names : β → List Name} {f : α → β → Except Fault α} {right : List β → α → Prop}
    (step : ∀ done b a, right done a → (seen ++ done.flatMap names).Nodup →
      Reads (seen ++ done.flatMap names) (names b) (right (done ++ [b])) (f a b))
    {a : α} (start : right [] a) (nodup : seen.Nodup) (l : List β) :
    Reads seen (l.flatMap names) (right l) (l.foldlM f a) := by
  have loop (done l : List β) (a : α) (ok : right done a)
      (nodup : (seen ++ done.flatMap names).Nodup) :
      Reads (seen ++ done.flatMap names) (l.flatMap names) (right (done ++ l)) (l.foldlM f a) := by
    induction l generalizing done a with
    | nil =>
      rw [List.append_nil]
      exact .done (by rwa [List.flatMap_nil, List.append_nil]) ok
    | cons b rest ih =>
      rw [List.foldlM_cons, List.flatMap_cons]
      refine (step done b a ok nodup).bind fun next ok' nodup' => ?_
      have hseen : seen ++ done.flatMap names ++ names b = seen ++ (done ++ [b]).flatMap names := by
        rw [List.flatMap_append, List.flatMap_singleton, List.append_assoc]
      rw [hseen] at nodup' ⊢
      have hrest := ih (done ++ [b]) next ok' nodup'
      rwa [List.append_assoc] at hrest
  have hloop := loop [] l a start (by rwa [List.flatMap_nil, List.append_nil])
  rwa [List.flatMap_nil, List.append_nil] at hloop

theorem ok_iff {a b : α} (h : Reads [] names (· = a) x) : x = .ok b ↔ names.Nodup ∧ b = a := by
  cases h with
  | done nodup ok =>
    subst ok
    exact ⟨fun h => ⟨nodup, (Except.ok.inj h).symm⟩, fun h => congrArg _ h.2.symm⟩
  | repeats first => exact ⟨nofun, fun h => absurd h.1 first.not_nodup⟩

theorem error_iff {fault : Fault} (h : Reads [] names right x) :
    x = .error fault ↔ ∃ name, FirstRepeat names name ∧ fault = .duplicate name := by
  cases h with
  | done nodup ok => exact ⟨nofun, fun ⟨_, first, _⟩ => absurd nodup first.not_nodup⟩
  | repeats first =>
    constructor
    · exact fun h => ⟨_, first, (Except.error.inj h).symm⟩
    · rintro ⟨name, first', rfl⟩
      rw [first.unique first']

end Reads

namespace IdMap

variable {kind : Kind} {ν : Type} {m : IdMap kind ν} {seen : List Name}

/-- A map has exactly those of its identifiers that were seen. -/
def Covers (m : IdMap kind ν) (seen : List Name) : Prop :=
  ∀ id, (m.get? id).isSome = true ↔ id.name ∈ seen

theorem covers_empty : (empty : IdMap kind ν).Covers [] := fun _ =>
  iff_of_false Bool.false_ne_true List.not_mem_nil

theorem Covers.insert (h : m.Covers seen) (id : Id kind) (value : ν) :
    (m.insert id value).Covers (seen ++ [id.name]) := by
  intro other
  rw [get?_insert, List.mem_append, List.mem_singleton, Id.name_inj, ← h other]
  split
  · next heq => exact iff_of_true rfl (.inr heq.symm)
  · next hne => exact (or_iff_left fun heq => hne heq.symm).symm

theorem Covers.append (h : m.Covers seen) {names : List Name}
    (other : ∀ name ∈ names, name.kind ≠ kind) : m.Covers (seen ++ names) := by
  intro id
  rw [List.mem_append, ← h id]
  exact (or_iff_left fun hm => other _ hm rfl).symm

theorem Covers.enter (h : m.Covers seen) (nodup : seen.Nodup) (id : Id kind) (value : ν) :
    Reads seen [id.name] (fun m' => m' = m.insert id value ∧ m'.Covers (seen ++ [id.name]))
      (m.enter id value) := by
  rw [IdMap.enter]
  split
  · next hm => exact .repeats ⟨seen, [], rfl, nodup, (h id).mp hm⟩
  · next hm =>
    have hnew : id.name ∉ seen := fun hseen => hm ((h id).mpr hseen)
    exact .done (List.nodup_append.mpr ⟨nodup, List.nodup_singleton _, by grind⟩)
      ⟨rfl, h.insert id value⟩

theorem insertAll_append (m : IdMap kind ν) (l l' : List (Id kind × ν)) :
    m.insertAll (l ++ l') = (m.insertAll l).insertAll l' := List.foldl_append

theorem Covers.enterAll {α : Type} (h : m.Covers seen) (nodup : seen.Nodup) (key : α → Id kind)
    (value : α → ν) (l : List α) :
    Reads seen (l.map fun x => (key x).name)
      (fun m' => m' = m.insertAll (l.map fun x => (key x, value x)) ∧
        m'.Covers (seen ++ l.map fun x => (key x).name))
      (l.foldlM (fun m x => m.enter (key x) (value x)) m) := by
  let right (done : List α) (m' : IdMap kind ν) : Prop :=
    m' = m.insertAll (done.map fun x => (key x, value x)) ∧
      m'.Covers (seen ++ done.map fun x => (key x).name)
  have start : right [] m := ⟨rfl, by simpa using h⟩
  have step (done : List α) (x : α) (m' : IdMap kind ν) (hm : right done m')
      (nodup : (seen ++ done.flatMap fun x => [(key x).name]).Nodup) :
      Reads (seen ++ done.flatMap fun x => [(key x).name]) [(key x).name] (right (done ++ [x]))
        (m'.enter (key x) (value x)) := by
    obtain ⟨rfl, covers⟩ := hm
    rw [← List.map_eq_flatMap] at nodup ⊢
    refine (covers.enter nodup (key x) (value x)).imp fun m' hm' => ?_
    obtain ⟨rfl, covers'⟩ := hm'
    simp only [right, List.map_append, List.map_singleton, insertAll_append, ← List.append_assoc]
    exact ⟨rfl, covers'⟩
  have loop := Reads.foldlM step start nodup l
  rwa [← List.map_eq_flatMap] at loop

end IdMap

def Segment.placed (segment : Segment) : List (Segment × Line) := segment.lines.map (segment, ·)

/-- All lines as they go on air, each with the segment that holds it. -/
def Rundown.placed (rundown : Rundown) : List (Segment × Line) :=
  rundown.segments.flatMap Segment.placed

namespace Register

/-- The register of some lines, told at once. -/
def of (placed : List (Segment × Line)) : Register where
  positions := placed.zipIdx.map fun p => ⟨p.2, p.1.1, p.1.2⟩
  lines := .ofList (placed.zipIdx.map fun p => (p.1.2.id, p.2))
  items := .ofList (placed.zipIdx.flatMap fun p => p.1.2.items.map fun item => (item.id, (p.2, item)))

theorem of_concat (placed : List (Segment × Line)) (segment : Segment) (line : Line) :
    of (placed ++ [(segment, line)]) =
      ⟨(of placed).positions ++ [⟨placed.length, segment, line⟩],
        (of placed).lines.insert line.id placed.length,
        (of placed).items.insertAll (line.items.map fun item => (item.id, (placed.length, item)))⟩ := by
  simp only [of, List.zipIdx_append, List.map_append, List.flatMap_append, List.zipIdx_cons,
    List.zipIdx_nil, List.flatMap_singleton, List.map_cons, List.map_nil, Nat.zero_add,
    IdMap.ofList, IdMap.insertAll_append]
  rfl

structure Covers (register : Register) (seen : List Name) : Prop where
  lines : register.lines.Covers seen
  items : register.items.Covers seen

variable {placed : List (Segment × Line)} {seen : List Name}

theorem addLine_reads (covers : (of placed).Covers seen) (nodup : seen.Nodup) (segment : Segment)
    (line : Line) :
    Reads seen line.names
      (fun register => register = of (placed ++ [(segment, line)]) ∧
        register.Covers (seen ++ line.names))
      (addLine segment (of placed) line) := by
  have hlength : (of placed).positions.length = placed.length := by simp [of]
  have hnames : line.names = [line.id.name] ++ line.items.map fun item => item.id.name := rfl
  rw [addLine, hlength, hnames]
  refine (covers.lines.enter nodup line.id placed.length).bind fun lines hlines nodup => ?_
  obtain ⟨rfl, coversLines⟩ := hlines
  have coversItems : (of placed).items.Covers (seen ++ [line.id.name]) :=
    covers.items.append (by simp [Id.name])
  refine (coversItems.enterAll nodup Item.id (fun item => (placed.length, item)) line.items).map
    fun items hitems => ?_
  obtain ⟨rfl, coversItems⟩ := hitems
  rw [of_concat, ← List.append_assoc]
  exact ⟨rfl, coversLines.append (by simp [Id.name]), coversItems⟩

theorem addLines_reads (covers : (of placed).Covers seen) (nodup : seen.Nodup) (segment : Segment) :
    Reads seen (segment.lines.flatMap Line.names)
      (fun register => register = of (placed ++ segment.placed) ∧
        register.Covers (seen ++ segment.lines.flatMap Line.names))
      (segment.lines.foldlM (addLine segment) (of placed)) := by
  let right (done : List Line) (register : Register) : Prop :=
    register = of (placed ++ done.map (segment, ·)) ∧
      register.Covers (seen ++ done.flatMap Line.names)
  have start : right [] (of placed) := by simpa [right] using covers
  have step (done : List Line) (line : Line) (register : Register) (hr : right done register)
      (nodup : (seen ++ done.flatMap Line.names).Nodup) :
      Reads (seen ++ done.flatMap Line.names) line.names (right (done ++ [line]))
        (addLine segment register line) := by
    obtain ⟨rfl, covers⟩ := hr
    refine (addLine_reads covers nodup segment line).imp fun register hr => ?_
    simp only [right, List.map_append, List.flatMap_append, List.map_singleton,
      List.flatMap_singleton, ← List.append_assoc]
    exact hr
  exact Reads.foldlM step start nodup segment.lines

theorem addSegment_reads {segments : IdMap .segment Unit} (coversSegments : segments.Covers seen)
    (covers : (of placed).Covers seen) (nodup : seen.Nodup) (segment : Segment) :
    Reads seen segment.names
      (fun state => state.1.Covers (seen ++ segment.names) ∧
        state.2 = of (placed ++ segment.placed) ∧ state.2.Covers (seen ++ segment.names))
      (addSegment (segments, of placed) segment) := by
  have hnames : segment.names = [segment.id.name] ++ segment.lines.flatMap Line.names := rfl
  have coversId : (of placed).Covers (seen ++ [segment.id.name]) :=
    ⟨covers.lines.append (by simp [Id.name]), covers.items.append (by simp [Id.name])⟩
  rw [addSegment, hnames]
  refine (coversSegments.enter nodup segment.id ()).bind fun segments hs nodup => ?_
  obtain ⟨-, coversSegments⟩ := hs
  refine (addLines_reads coversId nodup segment).map fun register hr => ?_
  obtain ⟨rfl, coversLines⟩ := hr
  rw [← List.append_assoc]
  refine ⟨coversSegments.append fun name hm => ?_, rfl, coversLines⟩
  obtain ⟨line, -, hname⟩ := List.mem_flatMap.mp hm
  rcases line.kind_of_mem_names hname with h | h <;> simp [h]

theorem addSegments_reads {segments : IdMap .segment Unit} (coversSegments : segments.Covers seen)
    (covers : empty.Covers seen) (nodup : seen.Nodup) (l : List Segment) :
    Reads seen (l.flatMap Segment.names) (fun state => state.2 = of (l.flatMap Segment.placed))
      (l.foldlM addSegment (segments, empty)) := by
  let right (done : List Segment) (state : IdMap .segment Unit × Register) : Prop :=
    state.1.Covers (seen ++ done.flatMap Segment.names) ∧
      state.2 = of (done.flatMap Segment.placed) ∧
      state.2.Covers (seen ++ done.flatMap Segment.names)
  have start : right [] (segments, empty) :=
    ⟨by simpa using coversSegments, rfl, by simpa using covers⟩
  have step (done : List Segment) (segment : Segment) (state : IdMap .segment Unit × Register)
      (hs : right done state) (nodup : (seen ++ done.flatMap Segment.names).Nodup) :
      Reads (seen ++ done.flatMap Segment.names) segment.names (right (done ++ [segment]))
        (addSegment state segment) := by
    obtain ⟨segments, register⟩ := state
    obtain ⟨coversSegments, rfl, covers⟩ := hs
    refine (addSegment_reads coversSegments covers nodup segment).imp fun state hs => ?_
    simp only [right, List.flatMap_append, List.flatMap_singleton, ← List.append_assoc]
    exact hs
  exact (Reads.foldlM step start nodup l).imp fun state hs => hs.2.1

end Register

namespace Rundown

variable {rundown : Rundown} {register : Register}

theorem register_reads (rundown : Rundown) :
    Reads [] rundown.names (fun register => register = .of rundown.placed) rundown.register := by
  rw [Rundown.register, names]
  refine (IdMap.covers_empty.enterAll .nil Layer.id (fun _ => ()) rundown.layers).bind
    fun _ _ nodup => ?_
  have others {kind : Kind} {ν : Type} (h : kind ≠ .layer) :
      (IdMap.empty : IdMap kind ν).Covers ([] ++ rundown.layers.map fun layer => layer.id.name) :=
    IdMap.covers_empty.append (by simpa [Id.name] using fun _ _ => h.symm)
  have covers : Register.empty.Covers ([] ++ rundown.layers.map fun layer => layer.id.name) :=
    ⟨others (by decide), others (by decide)⟩
  exact (Register.addSegments_reads (others (by decide)) covers nodup rundown.segments).map
    fun _ hs => hs

theorem register_eq_ok_iff :
    rundown.register = .ok register ↔ rundown.names.Nodup ∧ register = .of rundown.placed :=
  rundown.register_reads.ok_iff

theorem register_eq_error_iff {fault : Fault} :
    rundown.register = .error fault ↔
      ∃ name, FirstRepeat rundown.names name ∧ fault = .duplicate name :=
  rundown.register_reads.error_iff

theorem spots_eq_map_placed (rundown : Rundown) :
    rundown.spots = rundown.placed.map fun held => ⟨held.1.id, held.2⟩ := by
  rw [placed, List.map_flatMap, spots]
  refine List.flatMap_congr fun segment _ => ?_
  rw [Segment.placed, List.map_map]
  rfl

theorem order_of_placed (rundown : Rundown) :
    (Register.of rundown.placed).order = ⟨rundown.spots⟩ := by
  have hspots := congrArg (List.map fun held => (⟨held.1.id, held.2⟩ : Spot))
    (List.zipIdx_map_fst 0 rundown.placed)
  rw [← spots_eq_map_placed, List.map_map] at hspots
  rw [Register.order, Register.of, List.map_map, ← hspots]
  rfl

theorem order_eq_ok_iff {order : RunningOrder} :
    rundown.order = .ok order ↔ rundown.names.Nodup ∧ order = ⟨rundown.spots⟩ := by
  rw [Rundown.order, ← order_of_placed]
  cases hregister : rundown.register with
  | ok register =>
    obtain ⟨nodup, rfl⟩ := register_eq_ok_iff.mp hregister
    simp [Except.map, nodup, eq_comm]
  | error fault =>
    have hrepeats : ¬ rundown.names.Nodup := fun nodup =>
      nomatch hregister.symm.trans (register_eq_ok_iff.mpr ⟨nodup, rfl⟩)
    simp [Except.map, hrepeats]

theorem order_eq_error_iff {fault : Fault} :
    rundown.order = .error fault ↔
      ∃ name, FirstRepeat rundown.names name ∧ fault = .duplicate name := by
  rw [Rundown.order, ← register_eq_error_iff]
  cases rundown.register <;> simp [Except.map]

end Rundown

end OnAir
