import Mathlib.Data.List.Nodup

/-!
# Doubly linked chains

A store of nodes with a forward and a backward link, a head and a tail, over
an arbitrary pointer type with a distinguished null.  `append` and `unlink` are
the two pointer updates of an intrusive queue; neither checks that its argument
is, or is not, in the queue.  `IsQueue` says which list the queue represents.
`Linked` is the weaker shape that survives every update: all nodes lie on
finite chains with inverse links, the head starts a chain and the tail ends
one, but head and tail may belong to different chains.
-/

namespace SimpleOS.Library.LinkedChain

variable {Ptr : Type}

/-! ## Segments of a chain -/

section Segments

variable (null : Ptr)

/-- Following the link from `start` passes the listed nodes and arrives at `stop`. -/
def Segment (follow : Ptr → Ptr) : Ptr → List Ptr → Ptr → Prop
  | start, [], stop => start = stop
  | start, node :: rest, stop => start = node ∧ node ≠ null ∧ Segment follow (follow node) rest stop

/-- A segment that runs to null. -/
def Chain (follow : Ptr → Ptr) (start : Ptr) (nodes : List Ptr) : Prop :=
  Segment null follow start nodes null

instance decidableSegment [DecidableEq Ptr] (follow : Ptr → Ptr) :
    ∀ start nodes stop, Decidable (Segment null follow start nodes stop)
  | start, [], stop => inferInstanceAs (Decidable (start = stop))
  | _, node :: rest, stop =>
      have := decidableSegment follow (follow node) rest stop
      inferInstanceAs (Decidable (_ ∧ _ ∧ _))

instance [DecidableEq Ptr] (follow : Ptr → Ptr) (start : Ptr) (nodes : List Ptr) :
    Decidable (Chain null follow start nodes) :=
  decidableSegment null follow start nodes null

variable {null : Ptr} {follow other : Ptr → Ptr}

theorem segment_append (start : Ptr) (first second : List Ptr) (stop : Ptr) :
    Segment null follow start (first ++ second) stop ↔
      ∃ middle, Segment null follow start first middle ∧
        Segment null follow middle second stop := by
  induction first generalizing start with
  | nil =>
      constructor
      · intro segment
        exact ⟨start, rfl, segment⟩
      · rintro ⟨middle, here, segment⟩
        cases here
        exact segment
  | cons node rest ih =>
      constructor
      · rintro ⟨here, nonnull, segment⟩
        obtain ⟨middle, before, after⟩ := (ih (follow node)).mp segment
        exact ⟨middle, ⟨here, nonnull, before⟩, after⟩
      · rintro ⟨middle, ⟨here, nonnull, before⟩, after⟩
        exact ⟨here, nonnull, (ih (follow node)).mpr ⟨middle, before, after⟩⟩

/-- A segment only depends on the links of the nodes it passes. -/
theorem Segment.congr {start stop : Ptr} {nodes : List Ptr}
    (agree : ∀ node ∈ nodes, other node = follow node)
    (segment : Segment null follow start nodes stop) :
    Segment null other start nodes stop := by
  induction nodes generalizing start with
  | nil => exact segment
  | cons node rest ih =>
      obtain ⟨here, nonnull, later⟩ := segment
      refine ⟨here, nonnull, ?_⟩
      rw [agree node List.mem_cons_self]
      exact ih (fun member inside => agree member (List.mem_cons_of_mem node inside)) later

theorem Segment.ne_null {start stop : Ptr} {nodes : List Ptr}
    (segment : Segment null follow start nodes stop) : ∀ node ∈ nodes, node ≠ null := by
  induction nodes generalizing start with
  | nil => intro node member; cases member
  | cons first rest ih =>
      obtain ⟨_, nonnull, later⟩ := segment
      intro node member
      rcases List.mem_cons.mp member with same | inRest
      · rw [same]
        exact nonnull
      · exact ih later node inRest

@[simp] theorem chain_nil_iff {start : Ptr} : Chain null follow start [] ↔ start = null :=
  Iff.rfl

@[simp] theorem chain_cons_iff {start node : Ptr} {rest : List Ptr} :
    Chain null follow start (node :: rest) ↔
      start = node ∧ node ≠ null ∧ Chain null follow (follow node) rest :=
  Iff.rfl

theorem chain_append_iff {start : Ptr} {first second : List Ptr} :
    Chain null follow start (first ++ second) ↔
      ∃ middle, Segment null follow start first middle ∧ Chain null follow middle second :=
  segment_append start first second null

/-- The chain that starts at a node is unique. -/
theorem Chain.unique {start : Ptr} {first second : List Ptr}
    (left : Chain null follow start first) (right : Chain null follow start second) :
    first = second := by
  induction first generalizing start second with
  | nil =>
      cases second with
      | nil => rfl
      | cons node rest => exact absurd (right.1.symm.trans left) right.2.1
  | cons node rest ih =>
      cases second with
      | nil => exact absurd (left.1.symm.trans right) left.2.1
      | cons node' rest' =>
          have same : node = node' := left.1.symm.trans right.1
          subst same
          rw [ih left.2.2 right.2.2]

/-- A chain to null passes no node twice. -/
theorem Chain.nodup {start : Ptr} {nodes : List Ptr}
    (chain : Chain null follow start nodes) : nodes.Nodup := by
  induction nodes generalizing start with
  | nil => exact List.nodup_nil
  | cons node rest ih =>
      obtain ⟨_, nonnull, later⟩ := chain
      refine List.nodup_cons.mpr ⟨?_, ih later⟩
      intro again
      -- a second visit would make the rest of the chain a proper part of itself
      obtain ⟨before, after, split⟩ := List.append_of_mem again
      rw [split] at later
      obtain ⟨middle, _, ending⟩ := chain_append_iff.mp later
      have whole : Chain null follow node (node :: (before ++ node :: after)) :=
        ⟨rfl, nonnull, later⟩
      have same := whole.unique (ending.1 ▸ ending)
      have lengths := congrArg List.length same
      simp only [List.length_cons, List.length_append] at lengths
      omega

/-- Every node of a chain is followed by the next one or by null. -/
theorem Chain.follow_mem {start node : Ptr} {nodes : List Ptr}
    (chain : Chain null follow start nodes) (member : node ∈ nodes)
    (more : follow node ≠ null) : follow node ∈ nodes := by
  obtain ⟨before, after, split⟩ := List.append_of_mem member
  rw [split] at chain
  obtain ⟨_, _, ending⟩ := chain_append_iff.mp chain
  cases after with
  | nil => exact absurd ending.2.2 more
  | cons next rest =>
      rw [split, ending.2.2.1]
      simp

/-- The node whose link is null is the last one. -/
theorem Chain.getLast?_of_null {start node : Ptr} {nodes : List Ptr}
    (chain : Chain null follow start nodes) (member : node ∈ nodes)
    (last : follow node = null) : nodes.getLast? = some node := by
  obtain ⟨before, after, split⟩ := List.append_of_mem member
  rw [split] at chain
  obtain ⟨_, _, ending⟩ := chain_append_iff.mp chain
  have rest : Chain null follow null after := last ▸ ending.2.2
  rw [split, rest.unique (chain_nil_iff.mpr rfl)]
  simp

theorem Chain.follow_getLast {start node : Ptr} {nodes : List Ptr}
    (chain : Chain null follow start nodes) (last : nodes.getLast? = some node) :
    follow node = null := by
  obtain ⟨before, split⟩ := List.getLast?_eq_some_iff.mp last
  rw [split] at chain
  obtain ⟨_, _, ending⟩ := chain_append_iff.mp chain
  exact ending.2.2

/-- A nonempty chain has the nodes after its first one as the chain of its link. -/
theorem Chain.exists_cons {start : Ptr} {nodes : List Ptr}
    (chain : Chain null follow start nodes) (nonnull : start ≠ null) :
    ∃ rest, nodes = start :: rest ∧ Chain null follow (follow start) rest := by
  cases nodes with
  | nil => exact absurd chain nonnull
  | cons node rest =>
      obtain ⟨here, _, later⟩ := chain
      subst here
      exact ⟨rest, rfl, later⟩

end Segments

/-! ## The two pointer updates -/

/-- Forward and backward links with the two ends of the queue. -/
structure Links (Ptr : Type) where
  next : Ptr → Ptr
  prev : Ptr → Ptr
  head : Ptr
  tail : Ptr

namespace Links

/-- The same store read backwards. -/
def mirror (links : Links Ptr) : Links Ptr :=
  ⟨links.prev, links.next, links.tail, links.head⟩

section Updates

variable [DecidableEq Ptr] (null : Ptr)

/-- Put `node` behind the tail; nothing is checked about `node`. -/
def append (links : Links Ptr) (node : Ptr) : Links Ptr where
  next other :=
    if other ≠ null ∧ other = links.tail then node
    else if other = node then null
    else links.next other
  prev other := if other = node then links.tail else links.prev other
  head := if links.tail = null then node else links.head
  tail := node

/-- Splice `node` out between its neighbours; a null neighbour moves an end of the queue. -/
def unlink (links : Links Ptr) (node : Ptr) : Links Ptr where
  next other :=
    if other = node then null
    else if other ≠ null ∧ other = links.prev node then links.next node
    else links.next other
  prev other :=
    if other = node then null
    else if other ≠ null ∧ other = links.next node then links.prev node
    else links.prev other
  head := if links.prev node = null then links.next node else links.head
  tail := if links.next node = null then links.prev node else links.tail

end Updates

end Links

/-! ## The list a queue represents -/

/-- The queue holds exactly the listed nodes, in order, with inverse links. -/
structure IsQueue (null : Ptr) (links : Links Ptr) (nodes : List Ptr) : Prop where
  forward : Chain null links.next links.head nodes
  backward : Chain null links.prev links.tail nodes.reverse

instance [DecidableEq Ptr] (null : Ptr) (links : Links Ptr) (nodes : List Ptr) :
    Decidable (IsQueue null links nodes) :=
  decidable_of_iff (Chain null links.next links.head nodes ∧
      Chain null links.prev links.tail nodes.reverse)
    ⟨fun both => ⟨both.1, both.2⟩, fun queue => ⟨queue.forward, queue.backward⟩⟩

namespace IsQueue

variable {null : Ptr} {links : Links Ptr} {nodes : List Ptr}

theorem nodup (queue : IsQueue null links nodes) : nodes.Nodup := queue.forward.nodup

theorem ne_null (queue : IsQueue null links nodes) : ∀ node ∈ nodes, node ≠ null :=
  queue.forward.ne_null

theorem mirror (queue : IsQueue null links nodes) : IsQueue null links.mirror nodes.reverse where
  forward := queue.backward
  backward := by
    rw [List.reverse_reverse]
    exact queue.forward

theorem unique {other : List Ptr} (queue : IsQueue null links nodes)
    (again : IsQueue null links other) : nodes = other :=
  queue.forward.unique again.forward

theorem head_eq (queue : IsQueue null links nodes) : links.head = nodes.head?.getD null := by
  cases nodes with
  | nil => exact queue.forward
  | cons node rest => exact queue.forward.1

theorem tail_eq (queue : IsQueue null links nodes) : links.tail = nodes.getLast?.getD null := by
  have tail := queue.mirror.head_eq
  rw [List.head?_reverse] at tail
  exact tail

theorem head_null_iff (queue : IsQueue null links nodes) : links.head = null ↔ nodes = [] := by
  cases nodes with
  | nil => exact ⟨fun _ => rfl, fun _ => queue.forward⟩
  | cons node rest =>
      constructor
      · intro isNull
        exact absurd (queue.forward.1.symm.trans isNull) queue.forward.2.1
      · intro impossible
        cases impossible

theorem tail_null_iff (queue : IsQueue null links nodes) : links.tail = null ↔ nodes = [] := by
  rw [show links.tail = links.mirror.head by rfl, queue.mirror.head_null_iff,
    List.reverse_eq_nil_iff]

/-- The forward links of a queue invert its backward links. -/
theorem next_eq_iff (queue : IsQueue null links nodes) {first second : Ptr}
    (firstMem : first ∈ nodes) (secondMem : second ∈ nodes) :
    links.next first = second ↔ links.prev second = first := by
  have step : ∀ {store : Links Ptr} {list : List Ptr}, IsQueue null store list →
      ∀ a ∈ list, ∀ b ∈ list, store.next a = b → store.prev b = a := by
    intro store list holds a aMem b bMem linked
    obtain ⟨before, after, split⟩ := List.append_of_mem aMem
    have forward := holds.forward
    have backward := holds.backward
    rw [split] at forward backward
    obtain ⟨_, _, ending⟩ := chain_append_iff.mp forward
    cases after with
    | nil => exact absurd (linked.symm.trans ending.2.2) (holds.ne_null b bMem)
    | cons next rest =>
        have here : b = next := linked.symm.trans ending.2.2.1
        subst here
        rw [List.reverse_append, List.reverse_cons, List.reverse_cons, List.append_assoc,
          List.append_assoc] at backward
        obtain ⟨_, _, fromNext⟩ := chain_append_iff.mp backward
        exact fromNext.2.2.1
  constructor
  · exact step queue first firstMem second secondMem
  · exact step queue.mirror second (List.mem_reverse.mpr secondMem) first
      (List.mem_reverse.mpr firstMem)

section Updates

variable [DecidableEq Ptr]

/-- Appending a node that is not in the queue puts it behind the last one. -/
theorem append (queue : IsQueue null links nodes) {node : Ptr} (nonnull : node ≠ null)
    (absent : node ∉ nodes) : IsQueue null (links.append null node) (nodes ++ [node]) where
  forward := by
    rcases List.eq_nil_or_concat nodes with isNil | ⟨front, last, isConcat⟩
    · subst isNil
      have tailNull : links.tail = null := queue.backward
      refine ⟨?_, nonnull, ?_⟩
      · simp [Links.append, tailNull]
      · simp [Links.append, tailNull, Segment]
    · rw [List.concat_eq_append] at isConcat
      subst isConcat
      have tail : links.tail = last := by simpa using queue.tail_eq
      have lastNonnull : last ≠ null := queue.ne_null last (by simp)
      have nodup := queue.nodup
      rw [List.nodup_append] at nodup
      have forward := queue.forward
      obtain ⟨middle, before, here, _⟩ := chain_append_iff.mp forward
      rw [here] at before
      have beforeNew : Segment null (links.append null node).next links.head front last := by
        refine before.congr fun member inside => ?_
        have notLast : member ≠ last := nodup.2.2 member inside last (by simp)
        have notNode : member ≠ node := fun same => absent (by simp [← same, inside])
        simp [Links.append, tail, notLast, notNode]
      have headEq : (links.append null node).head = links.head := by
        simp [Links.append, tail, lastNonnull]
      have notTail : node ≠ last := fun same => absent (by simp [same])
      rw [headEq, List.append_assoc]
      refine chain_append_iff.mpr ⟨last, beforeNew, rfl, lastNonnull, ?_, nonnull, ?_⟩
      · simp [Links.append, tail, lastNonnull]
      · simp [Links.append, tail, notTail, Segment]
  backward := by
    rw [List.reverse_append]
    refine ⟨rfl, nonnull, ?_⟩
    have same : (links.append null node).prev node = links.tail := by simp [Links.append]
    rw [same]
    refine Segment.congr (fun member inside => ?_) queue.backward
    have notNode : member ≠ node := fun equal =>
      absent (equal ▸ List.mem_reverse.mp inside)
    simp [Links.append, notNode]

/-- The forward half of unlinking; the backward half is its mirror image. -/
private theorem unlink_forward {front back : List Ptr} {node : Ptr}
    (queue : IsQueue null links (front ++ node :: back)) :
    Chain null (links.unlink null node).next (links.unlink null node).head (front ++ back) := by
  have nodup := queue.nodup
  rw [List.nodup_append] at nodup
  obtain ⟨frontNodup, backNodup, apart⟩ := nodup
  obtain ⟨notInBack, _⟩ := List.nodup_cons.mp backNodup
  have forward := queue.forward
  have backward := queue.backward
  rw [List.reverse_append, List.reverse_cons, List.append_assoc] at backward
  obtain ⟨_, before, here, nonnull, after⟩ := chain_append_iff.mp forward
  obtain ⟨_, _, _, _, beforeBack⟩ := chain_append_iff.mp backward
  rw [here] at before
  rcases List.eq_nil_or_concat front with isNil | ⟨rest, last, isConcat⟩
  · -- the node was the head
    subst isNil
    have first : links.prev node = null := beforeBack
    have headEq : (links.unlink null node).head = links.next node := by
      simp [Links.unlink, first]
    rw [headEq]
    refine Segment.congr (fun member inside => ?_) after
    have notNode : member ≠ node := fun same => notInBack (same ▸ inside)
    simp only [Links.unlink, notNode, first, if_false]
    exact if_neg fun both => both.1 both.2
  · -- the node had the predecessor `last`
    rw [List.concat_eq_append] at isConcat
    subst isConcat
    rw [List.reverse_append] at beforeBack
    have prevEq : links.prev node = last := beforeBack.1
    have lastNonnull : last ≠ null := beforeBack.2.1
    obtain ⟨_, beforeLast, lastHere, _, _⟩ := (segment_append _ _ _ _).mp before
    rw [lastHere] at beforeLast
    have notLastNode : last ≠ node := apart last (by simp) node (by simp)
    have headEq : (links.unlink null node).head = links.head := by
      simp [Links.unlink, prevEq, lastNonnull]
    have newNext : (links.unlink null node).next last = links.next node := by
      simp [Links.unlink, prevEq, lastNonnull, notLastNode]
    rw [headEq, List.append_assoc]
    refine chain_append_iff.mpr ⟨last, ?_, rfl, lastNonnull, ?_⟩
    · refine beforeLast.congr fun member inside => ?_
      have notNode : member ≠ node := apart member (by simp [inside]) node (by simp)
      have notLast : member ≠ last :=
        (List.nodup_append.mp frontNodup).2.2 member inside last (by simp)
      simp [Links.unlink, prevEq, notNode, notLast]
    · rw [newNext]
      refine Segment.congr (fun member inside => ?_) after
      have notNode : member ≠ node := fun same => notInBack (same ▸ inside)
      have notLast : member ≠ last := fun same =>
        apart last (by simp) member (List.mem_cons_of_mem node inside) same.symm
      simp [Links.unlink, prevEq, notNode, notLast]

/-- Unlinking a queued node at any position removes exactly that node. -/
theorem unlink {front back : List Ptr} {node : Ptr}
    (queue : IsQueue null links (front ++ node :: back)) :
    IsQueue null (links.unlink null node) (front ++ back) where
  forward := queue.unlink_forward
  backward := by
    have mirrored : IsQueue null links.mirror (back.reverse ++ node :: front.reverse) := by
      simpa using queue.mirror
    have backward := mirrored.unlink_forward
    rw [List.reverse_append]
    exact backward

/-- Unlinking the head leaves the rest of the queue. -/
theorem unlink_head {node : Ptr} {rest : List Ptr} (queue : IsQueue null links (node :: rest)) :
    IsQueue null (links.unlink null node) rest := by
  have whole : IsQueue null links ([] ++ node :: rest) := queue
  exact whole.unlink

end Updates

end IsQueue

/-! ## The shape every update keeps -/

/-- A node on the chain of forward links from another one. -/
def Links.Reaches (null : Ptr) (links : Links Ptr) (start node : Ptr) : Prop :=
  ∃ nodes, Chain null links.next start nodes ∧ node ∈ nodes

theorem Links.not_reaches_null {null start : Ptr} {links : Links Ptr} (ends : start = null)
    (node : Ptr) : ¬ links.Reaches null start node := by
  rintro ⟨nodes, chain, member⟩
  rw [chain.unique (chain_nil_iff.mpr ends)] at member
  cases member

/-- A node reached from the head. -/
def Links.Queued (null : Ptr) (links : Links Ptr) (node : Ptr) : Prop :=
  links.Reaches null links.head node

/--
All nodes lie on finite chains with mutually inverse links; the head starts
its chain and the tail ends its chain, which need not be the same one.
-/
structure Linked (null : Ptr) (links : Links Ptr) : Prop where
  prev_of_next : ∀ {first second : Ptr}, first ≠ null → second ≠ null →
    links.next first = second → links.prev second = first
  next_of_prev : ∀ {first second : Ptr}, first ≠ null → second ≠ null →
    links.prev second = first → links.next first = second
  head_first : links.head ≠ null → links.prev links.head = null
  tail_last : links.tail ≠ null → links.next links.tail = null
  finite : ∀ start, ∃ nodes, Chain null links.next start nodes

theorem Chain.reaches_iff {null start : Ptr} {links : Links Ptr} {nodes : List Ptr}
    (chain : Chain null links.next start nodes) (node : Ptr) :
    links.Reaches null start node ↔ node ∈ nodes := by
  constructor
  · rintro ⟨list, again, member⟩
    rwa [chain.unique again]
  · intro member
    exact ⟨nodes, chain, member⟩

namespace Linked

variable {null : Ptr} {links : Links Ptr}

theorem next_ne_self (linked : Linked null links) {node : Ptr} (nonnull : node ≠ null) :
    links.next node ≠ node := by
  intro loop
  obtain ⟨nodes, chain⟩ := linked.finite node
  obtain ⟨rest, split, later⟩ := chain.exists_cons nonnull
  rw [loop] at later
  have lengths := congrArg List.length (chain.unique later)
  rw [split, List.length_cons] at lengths
  omega

theorem prev_ne_self (linked : Linked null links) {node : Ptr} (nonnull : node ≠ null) :
    links.prev node ≠ node := fun loop =>
  linked.next_ne_self nonnull (linked.next_of_prev nonnull nonnull loop)

/-- Reading a chain backwards from its last node returns to the node before its first. -/
theorem reverse_segment (linked : Linked null links) {start last : Ptr} {nodes : List Ptr}
    (chain : Chain null links.next start nodes) (ending : nodes.getLast? = some last) :
    Segment null links.prev last nodes.reverse (links.prev start) := by
  induction nodes generalizing start with
  | nil => cases ending
  | cons node rest ih =>
      obtain ⟨here, nonnull, later⟩ := chain
      cases rest with
      | nil =>
          cases ending
          rw [here]
          exact ⟨rfl, nonnull, rfl⟩
      | cons second rest =>
          have inner := ih later (by simpa using ending)
          have back : links.prev (links.next node) = node :=
            linked.prev_of_next nonnull (later.1 ▸ later.2.1) rfl
          rw [back] at inner
          rw [List.reverse_cons, here]
          exact (segment_append _ _ _ _).mpr ⟨node, inner, rfl, nonnull, rfl⟩

/-- Linked stores represent a list exactly when the tail is the last node after the head. -/
theorem isQueue_iff (linked : Linked null links) {nodes : List Ptr}
    (chain : Chain null links.next links.head nodes) :
    IsQueue null links nodes ↔ links.tail = nodes.getLast?.getD null := by
  constructor
  · exact IsQueue.tail_eq
  · intro tail
    refine ⟨chain, ?_⟩
    rcases List.eq_nil_or_concat nodes with isNil | ⟨front, last, isConcat⟩
    · subst isNil
      exact tail
    · have ending : nodes.getLast? = some last := by simp [isConcat]
      have nonempty : nodes ≠ [] := by simp [isConcat]
      have headNonnull : links.head ≠ null := fun isNull =>
        nonempty (chain.unique (chain_nil_iff.mpr isNull))
      have backward := linked.reverse_segment chain ending
      rw [linked.head_first headNonnull] at backward
      rw [tail, ending]
      exact backward

section Updates

variable [DecidableEq Ptr]

/-- Unlinking a node only removes it from the chains that pass it. -/
theorem chain_unlink (linked : Linked null links) {node start : Ptr} {nodes : List Ptr}
    (nodeNonnull : node ≠ null) (chain : Chain null links.next start nodes)
    (notStart : start ≠ node) :
    Chain null (links.unlink null node).next start (nodes.erase node) := by
  induction nodes generalizing start with
  | nil => exact chain
  | cons first rest ih =>
      obtain ⟨notInRest, _⟩ := List.nodup_cons.mp chain.nodup
      obtain ⟨here, nonnull, later⟩ := chain
      subst here
      rw [List.erase_cons_tail (by simpa using notStart)]
      refine ⟨rfl, nonnull, ?_⟩
      by_cases before : links.prev node = start
      · -- the spliced node comes right after `start`
        have newNext : (links.unlink null node).next start = links.next node := by
          simp [Links.unlink, notStart, nonnull, before]
        rw [linked.next_of_prev nonnull nodeNonnull before] at later
        obtain ⟨after, split, fromNode⟩ := Chain.exists_cons later nodeNonnull
        subst split
        obtain ⟨notInAfter, _⟩ := List.nodup_cons.mp (Chain.nodup later)
        rw [newNext, List.erase_cons_head]
        refine Segment.congr (fun member inside => ?_) fromNode
        have notNode : member ≠ node := fun same => notInAfter (same ▸ inside)
        have notFirst : member ≠ start := fun same =>
          notInRest (List.mem_cons_of_mem node (same ▸ inside))
        simp [Links.unlink, notNode, before, notFirst]
      · have notNext : links.next start ≠ node := fun same =>
          before (linked.prev_of_next nonnull nodeNonnull same)
        have newNext : (links.unlink null node).next start = links.next start := by
          simp [Links.unlink, notStart, Ne.symm before]
        rw [newNext]
        exact ih later notNext

/-- Every update by `unlink` keeps the chains linked. -/
theorem unlink (linked : Linked null links) {node : Ptr} (nodeNonnull : node ≠ null) :
    Linked null (links.unlink null node) where
  prev_of_next := by
    intro first second firstNonnull secondNonnull
    have forth := @linked.prev_of_next
    have back := @linked.next_of_prev
    simp only [Links.unlink]
    grind
  next_of_prev := by
    intro first second firstNonnull secondNonnull
    have forth := @linked.prev_of_next
    have back := @linked.next_of_prev
    simp only [Links.unlink]
    grind
  head_first := by
    have forth := @linked.prev_of_next
    have first := linked.head_first
    simp only [Links.unlink]
    grind
  tail_last := by
    have back := @linked.next_of_prev
    have last := linked.tail_last
    simp only [Links.unlink]
    grind
  finite := by
    intro start
    by_cases same : start = node
    · refine ⟨[node], same, nodeNonnull, ?_⟩
      simp [Links.unlink, Segment]
    · obtain ⟨nodes, chain⟩ := linked.finite start
      exact ⟨nodes.erase node, linked.chain_unlink nodeNonnull chain same⟩

/-- An unlinked node is no longer the head. -/
theorem unlink_head_ne (linked : Linked null links) {node : Ptr} (nonnull : node ≠ null) :
    (links.unlink null node).head ≠ node := by
  by_cases first : links.prev node = null
  · rw [show (links.unlink null node).head = links.next node from if_pos first]
    exact linked.next_ne_self nonnull
  · rw [show (links.unlink null node).head = links.head from if_neg first]
    intro same
    exact first (same ▸ linked.head_first (same ▸ nonnull))

/-- Nor is it the tail. -/
theorem unlink_tail_ne (linked : Linked null links) {node : Ptr} (nonnull : node ≠ null) :
    (links.unlink null node).tail ≠ node := by
  by_cases last : links.next node = null
  · rw [show (links.unlink null node).tail = links.prev node from if_pos last]
    exact linked.prev_ne_self nonnull
  · rw [show (links.unlink null node).tail = links.tail from if_neg last]
    intro same
    exact last (same ▸ linked.tail_last (same ▸ nonnull))

/-- Appending an isolated node extends the chain that ends at the tail, and only that one. -/
theorem chain_append (linked : Linked null links) {node start : Ptr} {nodes : List Ptr}
    (nodeNonnull : node ≠ null) (isolated : links.prev node = null) (notTail : node ≠ links.tail)
    (chain : Chain null links.next start nodes) (notStart : start ≠ node) :
    Chain null (links.append null node).next start
      (if links.tail ∈ nodes then nodes ++ [node] else nodes) := by
  induction nodes generalizing start with
  | nil => simpa using chain
  | cons first rest ih =>
      obtain ⟨notInRest, _⟩ := List.nodup_cons.mp chain.nodup
      obtain ⟨here, nonnull, later⟩ := chain
      subst here
      by_cases atTail : start = links.tail
      · have nextNull : links.next start = null := by
          rw [atTail]
          exact linked.tail_last (atTail ▸ nonnull)
        have restNil : rest = [] :=
          (show Chain null links.next (links.next start) rest from later).unique
          (chain_nil_iff.mpr nextNull)
        subst restNil
        rw [if_pos (by simp [atTail])]
        refine ⟨rfl, nonnull, ?_, nodeNonnull, ?_⟩
        · simp [Links.append, atTail ▸ nonnull, atTail]
        · simp [Links.append, notTail, Segment]
      · have notNext : links.next start ≠ node := by
          intro same
          have back := linked.prev_of_next nonnull nodeNonnull same
          exact nonnull (back.symm.trans isolated)
        have newNext : (links.append null node).next start = links.next start := by
          simp [Links.append, atTail, notStart]
        have inner := ih later notNext
        by_cases inRest : links.tail ∈ rest
        · rw [if_pos inRest] at inner
          rw [if_pos (List.mem_cons_of_mem start inRest)]
          exact ⟨rfl, nonnull, newNext ▸ inner⟩
        · rw [if_neg inRest] at inner
          rw [if_neg (by simp [Ne.symm atTail, inRest])]
          exact ⟨rfl, nonnull, newNext ▸ inner⟩

/-- Appending an isolated node that is neither end keeps the chains linked. -/
theorem append (linked : Linked null links) {node : Ptr} (nodeNonnull : node ≠ null)
    (nextNull : links.next node = null) (prevNull : links.prev node = null)
    (notHead : node ≠ links.head) (notTail : node ≠ links.tail) :
    Linked null (links.append null node) where
  prev_of_next := by
    intro first second firstNonnull secondNonnull
    have forth := @linked.prev_of_next
    have last := linked.tail_last
    simp only [Links.append]
    grind
  next_of_prev := by
    intro first second firstNonnull secondNonnull
    have back := @linked.next_of_prev
    have last := linked.tail_last
    simp only [Links.append]
    grind
  head_first := by
    have first := linked.head_first
    simp only [Links.append]
    grind
  tail_last := by
    simp only [Links.append]
    grind
  finite := by
    intro start
    by_cases same : start = node
    · refine ⟨[node], same, nodeNonnull, ?_⟩
      simp [Links.append, notTail, Segment]
    · obtain ⟨nodes, chain⟩ := linked.finite start
      exact ⟨_, linked.chain_append nodeNonnull prevNull notTail chain same⟩

/-- Moving a node to the back of the queue keeps the chains linked, wherever it was. -/
theorem requeue (linked : Linked null links) {node : Ptr} (nonnull : node ≠ null) :
    Linked null ((links.unlink null node).append null node) := by
  refine (linked.unlink nonnull).append nonnull ?_ ?_ ?_ ?_
  · simp [Links.unlink]
  · simp [Links.unlink]
  · exact (linked.unlink_head_ne nonnull).symm
  · exact (linked.unlink_tail_ne nonnull).symm

end Updates

end Linked

end SimpleOS.Library.LinkedChain
