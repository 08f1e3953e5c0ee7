import Mathlib

/-! # Circular doubly linked lists

The elements of an intrusive list carry their own `prev` and `next` pointers, and a head
that is no element closes the circle. The pointers stand for a list of elements when the
path along `next` from the head runs through that list and back to the head, with `prev`
leading back at every node.
-/

namespace Xv6

/-- The pointers of all nodes. The head is `none`. -/
structure Links (Element : Type) where
  prev : Option Element → Option Element
  next : Option Element → Option Element

namespace Links

variable {Element : Type}

/-- The nodes strictly between `start` and `stop`, along `next`, are `elements`. -/
def Path (links : Links Element) : Option Element → List Element → Option Element → Prop
  | start, [], stop => links.next start = stop ∧ links.prev stop = start
  | start, x :: rest, stop =>
      links.next start = some x ∧ links.prev (some x) = start ∧ links.Path (some x) rest stop

structure Circular (links : Links Element) (elements : List Element) : Prop where
  nodup : elements.Nodup
  path : links.Path none elements none

def flip (links : Links Element) : Links Element where
  prev := links.next
  next := links.prev

/-- Follow the pointers from a node to the first element that passes the test, or to the
head. `none` stands for a walk that takes more steps. -/
def search (follow : Option Element → Option Element) (test : Element → Bool) :
    (steps : Nat) → Option Element → Option (Option Element)
  | 0, _ => none
  | _ + 1, none => some none
  | steps + 1, some x =>
      if test x then some (some x) else search follow test steps (follow (some x))

section Paths

variable {links : Links Element} {start stop : Option Element} {elements : List Element}

theorem Path.append {x : Element} {xs ys : List Element} (first : links.Path start xs (some x))
    (second : links.Path (some x) ys stop) : links.Path start (xs ++ x :: ys) stop := by
  induction xs generalizing start with
  | nil => exact ⟨first.1, first.2, second⟩
  | cons y rest induction => exact ⟨first.1, first.2.1, induction first.2.2⟩

theorem Path.split {x : Element} {xs ys : List Element}
    (path : links.Path start (xs ++ x :: ys) stop) :
    links.Path start xs (some x) ∧ links.Path (some x) ys stop := by
  induction xs generalizing start with
  | nil => exact ⟨⟨path.1, path.2.1⟩, path.2.2⟩
  | cons y rest induction =>
    have tail := induction path.2.2
    exact ⟨⟨path.1, path.2.1, tail.1⟩, tail.2⟩

theorem Path.reverse (path : links.Path start elements stop) :
    links.flip.Path stop elements.reverse start := by
  induction elements generalizing start with
  | nil => exact ⟨path.2, path.1⟩
  | cons x rest induction =>
    rw [List.reverse_cons]
    exact (induction path.2.2).append ⟨path.2.1, path.1⟩

/-- The node before the end of a path lies on it. -/
theorem Path.prev_stop (path : links.Path start elements stop) :
    links.prev stop = start ∨ ∃ x, x ∈ elements ∧ links.prev stop = some x := by
  induction elements generalizing start with
  | nil => exact Or.inl path.2
  | cons x rest induction =>
    cases induction path.2.2 with
    | inl isFirst => exact Or.inr ⟨x, List.mem_cons_self, isFirst⟩
    | inr later =>
      rcases later with ⟨y, isElement, isPrev⟩
      exact Or.inr ⟨y, List.mem_cons_of_mem x isElement, isPrev⟩

theorem Path.search {test : Element → Bool} {steps : Nat} (path : links.Path start elements none)
    (enough : elements.length < steps) :
    search links.next test steps (links.next start) = some (elements.find? test) := by
  induction elements generalizing start steps with
  | nil =>
    cases steps with
    | zero => exact absurd enough (Nat.not_lt_zero _)
    | succ steps =>
      rw [path.1]
      rfl
  | cons x rest induction =>
    cases steps with
    | zero => exact absurd enough (Nat.not_lt_zero _)
    | succ steps =>
      rw [path.1, Links.search, List.find?_cons]
      cases test x with
      | true => rfl
      | false => exact induction path.2.2 (Nat.lt_of_succ_lt_succ enough)

end Paths

variable [DecidableEq Element]

def setPrev (links : Links Element) (node target : Option Element) : Links Element :=
  { links with prev := Function.update links.prev node target }

def setNext (links : Links Element) (node target : Option Element) : Links Element :=
  { links with next := Function.update links.next node target }

section Frame

@[simp] theorem next_setPrev (links : Links Element) (node target : Option Element) :
    (links.setPrev node target).next = links.next := rfl

@[simp] theorem prev_setNext (links : Links Element) (node target : Option Element) :
    (links.setNext node target).prev = links.prev := rfl

@[simp] theorem prev_setPrev_self (links : Links Element) (node target : Option Element) :
    (links.setPrev node target).prev node = target :=
  Function.update_self ..

@[simp] theorem next_setNext_self (links : Links Element) (node target : Option Element) :
    (links.setNext node target).next node = target :=
  Function.update_self ..

theorem prev_setPrev_of_ne (links : Links Element) {node other : Option Element}
    (different : other ≠ node) (target : Option Element) :
    (links.setPrev node target).prev other = links.prev other :=
  Function.update_of_ne different ..

theorem next_setNext_of_ne (links : Links Element) {node other : Option Element}
    (different : other ≠ node) (target : Option Element) :
    (links.setNext node target).next other = links.next other :=
  Function.update_of_ne different ..

variable {links : Links Element} {start stop node target : Option Element}
  {elements : List Element}

theorem Path.setPrev (path : links.Path start elements stop) (notStop : node ≠ stop)
    (outside : ∀ x, x ∈ elements → node ≠ some x) :
    (links.setPrev node target).Path start elements stop := by
  induction elements generalizing start with
  | nil => exact ⟨path.1, (links.prev_setPrev_of_ne notStop.symm target).trans path.2⟩
  | cons x rest induction =>
    have notFirst := outside x List.mem_cons_self
    refine ⟨path.1, (links.prev_setPrev_of_ne notFirst.symm target).trans path.2.1, ?_⟩
    exact induction path.2.2 fun y isElement => outside y (List.mem_cons_of_mem x isElement)

theorem Path.setNext (path : links.Path start elements stop) (notStart : node ≠ start)
    (outside : ∀ x, x ∈ elements → node ≠ some x) :
    (links.setNext node target).Path start elements stop := by
  induction elements generalizing start with
  | nil => exact ⟨(links.next_setNext_of_ne notStart.symm target).trans path.1, path.2⟩
  | cons x rest induction =>
    have notFirst := outside x List.mem_cons_self
    refine ⟨(links.next_setNext_of_ne notStart.symm target).trans path.1, path.2.1, ?_⟩
    exact induction path.2.2 notFirst fun y isElement =>
      outside y (List.mem_cons_of_mem x isElement)

/-- Make a path end at another node, by the two pointers at its end. -/
theorem Path.retarget (path : links.Path start elements stop)
    (outside : ∀ x, x ∈ elements → target ≠ some x)
    (fresh : ∀ x, x ∈ elements → start ≠ some x) (nodup : elements.Nodup) :
    ((links.setPrev target (links.prev stop)).setNext (links.prev stop) target).Path
      start elements target := by
  induction elements generalizing start with
  | nil =>
    refine ⟨?_, ?_⟩
    · rw [path.2, next_setNext_self]
    · rw [prev_setNext, prev_setPrev_self, path.2]
  | cons x rest induction =>
    rcases List.nodup_cons.mp nodup with ⟨notRest, restNodup⟩
    have notStart : links.prev stop ≠ start := by
      intro isStart
      cases path.2.2.prev_stop with
      | inl isFirst => exact fresh x List.mem_cons_self (isStart.symm.trans isFirst)
      | inr later =>
        rcases later with ⟨y, isElement, isPrev⟩
        exact fresh y (List.mem_cons_of_mem x isElement) (isStart.symm.trans isPrev)
    have notFirst := outside x List.mem_cons_self
    refine ⟨?_, ?_, ?_⟩
    · rw [next_setNext_of_ne _ notStart.symm]
      exact path.1
    · rw [prev_setNext, prev_setPrev_of_ne _ notFirst.symm]
      exact path.2.1
    · apply induction path.2.2
      · exact fun y isElement => outside y (List.mem_cons_of_mem x isElement)
      · intro y isElement same
        cases same
        exact notRest isElement
      · exact restNodup

end Frame

/-! ## Operations -/

def empty : Links Element where
  prev := fun _ => none
  next := fun _ => none

def remove (links : Links Element) (x : Element) : Links Element :=
  let unlinked := links.setPrev (links.next (some x)) (links.prev (some x))
  unlinked.setNext (unlinked.prev (some x)) (unlinked.next (some x))

def pushFront (links : Links Element) (x : Element) : Links Element :=
  let entered := (links.setNext (some x) (links.next none)).setPrev (some x) none
  let linked := entered.setPrev (entered.next none) (some x)
  linked.setNext none (some x)

section Operations

variable {links : Links Element} {elements : List Element} {x : Element}

omit [DecidableEq Element] in
theorem circular_empty : (empty : Links Element).Circular [] :=
  ⟨List.nodup_nil, rfl, rfl⟩

theorem Circular.pushFront (circular : links.Circular elements) (fresh : x ∉ elements) :
    (links.pushFront x).Circular (x :: elements) := by
  have notHead : (none : Option Element) ≠ some x := nofun
  have path := circular.path
  refine ⟨List.nodup_cons.mpr ⟨fresh, circular.nodup⟩, ?_⟩
  unfold Links.pushFront
  dsimp only
  rw [next_setPrev, next_setNext_of_ne _ notHead]
  refine ⟨next_setNext_self .., ?_⟩
  rw [prev_setNext]
  cases elements with
  | nil =>
    rw [path.1]
    refine ⟨?_, ?_, ?_⟩
    · rw [prev_setPrev_of_ne _ notHead.symm, prev_setPrev_self]
    · rw [next_setNext_of_ne _ notHead.symm, next_setPrev, next_setPrev, next_setNext_self]
    · rw [prev_setNext, prev_setPrev_self]
  | cons y rest =>
    have different : (some x : Option Element) ≠ some y := by
      intro same
      cases same
      exact fresh List.mem_cons_self
    have notRest : ∀ z, z ∈ rest → (some x : Option Element) ≠ some z := by
      intro z isElement same
      cases same
      exact fresh (List.mem_cons_of_mem y isElement)
    have notAgain : ∀ z, z ∈ rest → (some y : Option Element) ≠ some z := by
      intro z isElement same
      cases same
      exact (List.nodup_cons.mp circular.nodup).1 isElement
    rw [path.1]
    refine ⟨?_, ?_, ?_, ?_⟩
    · rw [prev_setPrev_of_ne _ different, prev_setPrev_self]
    · rw [next_setNext_of_ne _ notHead.symm, next_setPrev, next_setPrev, next_setNext_self]
    · rw [prev_setNext, prev_setPrev_self]
    · apply Path.setNext
      · apply Path.setPrev
        · apply Path.setPrev
          · exact path.2.2.setNext different notRest
          · exact notHead.symm
          · exact notRest
        · exact nofun
        · exact notAgain
      · exact nofun
      · exact fun _ _ => nofun

theorem Circular.remove {xs ys : List Element} (circular : links.Circular (xs ++ x :: ys)) :
    (links.remove x).Circular (xs ++ ys) := by
  rcases circular.path.split with ⟨before, after⟩
  have nodup := circular.nodup
  rw [List.nodup_append] at nodup
  rcases nodup with ⟨beforeNodup, restNodup, apart⟩
  rcases List.nodup_cons.mp restNodup with ⟨notAfter, afterNodup⟩
  have joined : (xs ++ ys).Nodup := by
    refine List.nodup_append.mpr ⟨beforeNodup, afterNodup, ?_⟩
    exact fun y inBefore z inAfter => apart y inBefore z (List.mem_cons_of_mem x inAfter)
  refine ⟨joined, ?_⟩
  unfold Links.remove
  dsimp only
  cases ys with
  | nil =>
    have isLast : links.next (some x) = none := after.1
    have different : (some x : Option Element) ≠ none := nofun
    rw [next_setPrev, isLast, prev_setPrev_of_ne _ different, List.append_nil]
    exact before.retarget (fun _ _ => nofun) (fun _ _ => nofun) beforeNodup
  | cons y rest =>
    have isNext : links.next (some x) = some y := after.1
    have different : (some x : Option Element) ≠ some y := by
      intro same
      cases same
      exact notAfter List.mem_cons_self
    rw [next_setPrev, isNext, prev_setPrev_of_ne _ different]
    have outside : ∀ z, z ∈ xs → (some y : Option Element) ≠ some z := by
      intro z inBefore same
      cases same
      exact apart y inBefore y (List.mem_cons_of_mem x List.mem_cons_self) rfl
    have notPrev : ∀ z, z ∈ y :: rest → links.prev (some x) ≠ some z := by
      intro z inAfter isPrev
      cases before.prev_stop with
      | inl isHead =>
        rw [isHead] at isPrev
        cases isPrev
      | inr later =>
        rcases later with ⟨w, inBefore, isAlso⟩
        rw [isAlso] at isPrev
        cases isPrev
        exact apart z inBefore z (List.mem_cons_of_mem x inAfter) rfl
    apply Path.append
    · exact before.retarget outside (fun _ _ => nofun) beforeNodup
    · apply Path.setNext
      · apply Path.setPrev after.2.2
        · exact nofun
        · intro z isElement same
          cases same
          exact (List.nodup_cons.mp afterNodup).1 isElement
      · exact notPrev y List.mem_cons_self
      · exact fun z isElement => notPrev z (List.mem_cons_of_mem y isElement)

/-- Moving an element to the front. -/
theorem Circular.moveFront {xs ys : List Element} (circular : links.Circular (xs ++ x :: ys)) :
    ((links.remove x).pushFront x).Circular (x :: (xs ++ ys)) := by
  apply circular.remove.pushFront
  intro isElement
  have nodup := circular.nodup
  rw [List.nodup_middle, List.nodup_cons] at nodup
  exact nodup.1 isElement

omit [DecidableEq Element] in
/-- A walk along `next` meets the elements in order. -/
theorem Circular.search_next (circular : links.Circular elements) {test : Element → Bool}
    {steps : Nat} (enough : elements.length < steps) :
    search links.next test steps (links.next none) = some (elements.find? test) :=
  circular.path.search enough

omit [DecidableEq Element] in
/-- A walk along `prev` meets the last element first. -/
theorem Circular.search_prev (circular : links.Circular elements) {test : Element → Bool}
    {steps : Nat} (enough : elements.length < steps) :
    search links.prev test steps (links.prev none) = some (elements.reverse.find? test) := by
  apply circular.path.reverse.search
  rw [List.length_reverse]
  exact enough

end Operations

end Links

end Xv6
