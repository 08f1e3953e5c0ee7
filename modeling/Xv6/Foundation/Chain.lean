import Mathlib

/-! # Singly linked queues

The nodes of an intrusive queue carry a `next` pointer each, and one more pointer leads to
the first of them. A null pointer is `none`, and ends the queue.
-/

namespace Xv6

/-- The pointer to the first node and the pointers of all nodes. -/
structure Chain (Node : Type) where
  first : Option Node
  next : Node → Option Node

namespace Chain

variable {Node : Type}

/-- The nodes that a pointer leads to. -/
def Listed (next : Node → Option Node) : (pointer : Option Node) → List Node → Prop
  | pointer, [] => pointer = none
  | pointer, node :: rest => pointer = some node ∧ Listed next (next node) rest

/-- The queue has the nodes, in this order and without duplicates. -/
structure Holds (chain : Chain Node) (nodes : List Node) : Prop where
  listed : Listed chain.next chain.first nodes
  nodup : nodes.Nodup

/-- The pointer at a place: in a node, or the one to the first node. -/
def deref (chain : Chain Node) : (place : Option Node) → Option Node
  | none => chain.first
  | some node => chain.next node

/-- The loop `for(pp = &first; *pp; pp = &(*pp)->next)`. `none` stands for a loop that takes
more turns. -/
def findEnd (chain : Chain Node) : (turns : Nat) → (pp : Option Node) → Option (Option Node)
  | 0, _ => none
  | turns + 1, pp =>
      match chain.deref pp with
      | none => some pp
      | some node => findEnd chain turns (some node)

variable [DecidableEq Node]

def store (chain : Chain Node) (place value : Option Node) : Chain Node :=
  match place with
  | none => { chain with first := value }
  | some node => { chain with next := Function.update chain.next node value }

/-- Clear the pointer of a node, find the end and put the node there. -/
def append (chain : Chain Node) (turns : Nat) (node : Node) : Option (Chain Node) :=
  let cleared := chain.store (some node) none
  (cleared.findEnd turns none).map fun pp => cleared.store pp (some node)

def unlinkFirst (chain : Chain Node) (node : Node) : Chain Node :=
  { chain with first := chain.next node }

section

omit [DecidableEq Node]

variable {chain : Chain Node} {next other : Node → Option Node} {pointer : Option Node}
  {nodes : List Node}

theorem Listed.congr (same : ∀ node ∈ nodes, other node = next node)
    (listed : Listed next pointer nodes) : Listed other pointer nodes := by
  induction nodes generalizing pointer with
  | nil => exact listed
  | cons node rest induction =>
    refine ⟨listed.1, induction (fun later member => same later (.tail _ member)) ?_⟩
    rw [same node List.mem_cons_self]
    exact listed.2

/-- The loop ends at the last node, or at the pointer where it started. -/
theorem findEnd_listed {turns : Nat} {pp : Option Node} (enough : nodes.length < turns)
    (listed : Listed chain.next (chain.deref pp) nodes) :
    chain.findEnd turns pp = some (nodes.getLast?.or pp) := by
  induction nodes generalizing turns pp with
  | nil =>
    cases turns with
    | zero => cases enough
    | succ turns => simp [findEnd, show chain.deref pp = none from listed]
  | cons node rest induction =>
    cases turns with
    | zero => cases enough
    | succ turns =>
      have later : Listed chain.next (chain.deref (some node)) rest := listed.2
      rw [findEnd, listed.1]
      dsimp only
      rw [induction (Nat.lt_of_succ_lt_succ enough) later, List.getLast?_cons]
      cases rest.getLast? with
      | none => rfl
      | some last => rfl

theorem Holds.unlinkFirst {node : Node} (holds : chain.Holds (node :: nodes)) :
    (chain.unlinkFirst node).Holds nodes :=
  ⟨holds.listed.2, (List.nodup_cons.mp holds.nodup).2⟩

end

variable {chain : Chain Node} {nodes : List Node} {node : Node}

/-- A node is put behind the last one. -/
theorem Listed.snoc {next : Node → Option Node} {pointer : Option Node} {last : Node}
    (listed : Listed next pointer (nodes ++ [last])) (nodup : (nodes ++ [last]).Nodup)
    (ends : next node = none) (fresh : node ∉ nodes ++ [last]) :
    Listed (Function.update next last (some node)) pointer (nodes ++ [last] ++ [node]) := by
  induction nodes generalizing pointer with
  | nil =>
    have different : node ≠ last := fun same => fresh (by simp [same])
    refine ⟨listed.1, ?_, ?_⟩
    · rw [Function.update_self]
    · change Function.update next last (some node) node = none
      rw [Function.update_of_ne different]
      exact ends
  | cons first rest induction =>
    have apart : first ∉ rest ++ [last] := (List.nodup_cons.mp nodup).1
    have different : first ≠ last := fun same => apart (by simp [same])
    refine ⟨listed.1, ?_⟩
    rw [Function.update_of_ne different]
    exact induction listed.2 (List.nodup_cons.mp nodup).2
      fun member => fresh (List.mem_cons_of_mem first member)

/-- `append` puts a new node at the end of the queue. -/
theorem Holds.append (holds : chain.Holds nodes) (fresh : node ∉ nodes) {turns : Nat}
    (enough : nodes.length < turns) :
    ∃ after, chain.append turns node = some after ∧ after.Holds (nodes ++ [node]) := by
  have cleared : Listed (Function.update chain.next node none) chain.first nodes := by
    refine holds.listed.congr fun other member => ?_
    rw [Function.update_of_ne]
    exact fun same => fresh (same ▸ member)
  have nodup : (nodes ++ [node]).Nodup := by
    rw [List.nodup_append]
    refine ⟨holds.nodup, List.nodup_singleton node, ?_⟩
    intro other member single same single_eq
    rw [List.mem_singleton] at same
    exact fresh (same ▸ single_eq ▸ member)
  rw [Chain.append, findEnd_listed enough cleared, Option.map_some]
  refine ⟨_, rfl, ?_, nodup⟩
  rcases List.eq_nil_or_concat nodes with rfl | ⟨front, last, rfl⟩
  · exact ⟨rfl, Function.update_self ..⟩
  · rw [List.concat_eq_append] at *
    rw [List.getLast?_append]
    exact cleared.snoc holds.nodup (Function.update_self ..) fresh

end Chain

end Xv6
