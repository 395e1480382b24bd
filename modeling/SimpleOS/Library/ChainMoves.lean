import SimpleOS.Library.LinkedChain

/-!
# Moves in linked chains

What the two pointer updates do when their argument is not in the queue:
unlinking a stray node, moving a node behind the queue and taking the head off
it, and the set of nodes that can carry links at all.
-/

namespace SimpleOS.Library.LinkedChain

variable {Ptr : Type}

/-! ## Unlinking a node that need not be queued -/

/--
Unlinking the node moves one end of a queue it is not in: it has a successor
and no predecessor without being the head, or the other way round.
-/
def Links.Strays (null : Ptr) (links : Links Ptr) (node : Ptr) : Prop :=
  (links.prev node = null ∧ node ≠ links.head ∧ links.next node ≠ null) ∨
    (links.next node = null ∧ node ≠ links.tail ∧ links.prev node ≠ null)

section Strays

variable {null : Ptr} {links : Links Ptr} {nodes : List Ptr} {node : Ptr}

theorem IsQueue.not_strays (queue : IsQueue null links nodes) (member : node ∈ nodes) :
    ¬ links.Strays null node := by
  rintro (⟨first, notHead, _⟩ | ⟨last, notTail, _⟩)
  · have ending := Chain.getLast?_of_null queue.backward (List.mem_reverse.mpr member) first
    rw [List.getLast?_reverse] at ending
    exact notHead (by rw [queue.head_eq, ending]; rfl)
  · have ending := Chain.getLast?_of_null queue.forward member last
    exact notTail (by rw [queue.tail_eq, ending]; rfl)

/-- A node next to a queued one is queued. -/
theorem Linked.mem_of_next (linked : Linked null links) (queue : IsQueue null links nodes)
    (nonnull : node ≠ null) (more : links.next node ≠ null) (member : links.next node ∈ nodes) :
    node ∈ nodes := by
  have back := linked.prev_of_next nonnull more rfl
  have inside := Chain.follow_mem queue.backward (List.mem_reverse.mpr member)
    (back.symm ▸ nonnull)
  rw [back] at inside
  exact List.mem_reverse.mp inside

theorem Linked.mem_of_prev (linked : Linked null links) (queue : IsQueue null links nodes)
    (nonnull : node ≠ null) (more : links.prev node ≠ null) (member : links.prev node ∈ nodes) :
    node ∈ nodes := by
  have forth := linked.next_of_prev more nonnull rfl
  have inside := Chain.follow_mem queue.forward member (forth.symm ▸ nonnull)
  rwa [forth] at inside

variable [DecidableEq Ptr]

/-- Unlinking leaves a queue behind exactly when the node does not stray. -/
theorem Linked.exists_isQueue_unlink_iff (linked : Linked null links)
    (queue : IsQueue null links nodes) (nonnull : node ≠ null) :
    (∃ rest, IsQueue null (links.unlink null node) rest) ↔ ¬ links.Strays null node := by
  by_cases member : node ∈ nodes
  · obtain ⟨front, back, split⟩ := List.append_of_mem member
    subst split
    exact ⟨fun _ => queue.not_strays member, fun _ => ⟨front ++ back, queue.unlink⟩⟩
  · have notHead : node ≠ links.head := fun same => by
      obtain ⟨rest, split, _⟩ := Chain.exists_cons queue.forward (same ▸ nonnull)
      exact member (by rw [split, same]; exact List.mem_cons_self)
    have notTail : node ≠ links.tail := fun same => by
      obtain ⟨rest, split, _⟩ := Chain.exists_cons queue.backward (same ▸ nonnull)
      exact member (List.mem_reverse.mp (by rw [split, same]; exact List.mem_cons_self))
    have unchanged := linked.chain_unlink nonnull queue.forward notHead.symm
    rw [List.erase_of_not_mem member] at unchanged
    by_cases first : links.prev node = null <;> by_cases last : links.next node = null
    · -- both ends are cleared
      refine ⟨fun _ strays => ?_, fun _ => ⟨[], ?_, ?_⟩⟩
      · rcases strays with ⟨_, _, more⟩ | ⟨_, _, more⟩
        · exact more last
        · exact more first
      · exact (if_pos first).trans last
      · exact (if_pos last).trans first
    · -- the head moves to a chain that the tail does not end
      refine ⟨?_, fun notStrays => absurd (Or.inl ⟨first, notHead, last⟩) notStrays⟩
      rintro ⟨list, other⟩
      have head : (links.unlink null node).head = links.next node := if_pos first
      have tail : (links.unlink null node).tail = links.tail := if_neg last
      have nextOutside : links.next node ∉ nodes := fun inside =>
        member (linked.mem_of_next queue nonnull last inside)
      have kept : Chain null (links.unlink null node).prev links.tail nodes.reverse := by
        refine Segment.congr (fun other inside => ?_) queue.backward
        have inNodes := List.mem_reverse.mp inside
        have notNode : other ≠ node := fun same => member (same ▸ inNodes)
        have notNext : other ≠ links.next node := fun same => nextOutside (same ▸ inNodes)
        simp [Links.unlink, notNode, notNext]
      have same : list = nodes := List.reverse_injective
        ((tail ▸ other.backward : Chain null _ links.tail list.reverse).unique kept)
      obtain ⟨rest, split, _⟩ := Chain.exists_cons (head ▸ other.forward) last
      exact absurd (same ▸ split ▸ List.mem_cons_self) nextOutside
    · -- the tail moves to a chain that the head does not start
      refine ⟨?_, fun notStrays => absurd (Or.inr ⟨last, notTail, first⟩) notStrays⟩
      rintro ⟨list, other⟩
      have head : (links.unlink null node).head = links.head := if_neg first
      have tail : (links.unlink null node).tail = links.prev node := if_pos last
      have same : list = nodes :=
        (head ▸ other.forward : Chain null _ links.head list).unique unchanged
      obtain ⟨rest, split, _⟩ := Chain.exists_cons (tail ▸ other.backward) first
      have inside : links.prev node ∈ nodes := by
        rw [← same]
        exact List.mem_reverse.mp (split ▸ List.mem_cons_self)
      exact absurd (linked.mem_of_prev queue nonnull first inside) member
    · -- neither end moves
      refine ⟨fun _ strays => ?_, fun _ => ⟨nodes, ?_⟩⟩
      · rcases strays with ⟨none, _⟩ | ⟨none, _⟩
        · exact first none
        · exact last none
      · have head : (links.unlink null node).head = links.head := if_neg first
        have tail : (links.unlink null node).tail = links.tail := if_neg last
        refine ((linked.unlink nonnull).isQueue_iff (head.symm ▸ unchanged)).mpr ?_
        rw [tail]
        exact queue.tail_eq

/-- Unlinking the head leaves the rest of its chain. -/
theorem Linked.chain_unlink_head (linked : Linked null links) {head : Ptr} {rest : List Ptr}
    (chain : Chain null links.next links.head (head :: rest)) :
    Chain null (links.unlink null head).next (links.unlink null head).head rest := by
  obtain ⟨first, nonnull, later⟩ := id chain
  have newHead : (links.unlink null head).head = links.next head :=
    if_pos (first ▸ linked.head_first (first ▸ nonnull))
  have left := linked.chain_unlink nonnull later (linked.next_ne_self nonnull)
  rw [List.erase_of_not_mem (List.nodup_cons.mp (Chain.nodup chain)).1] at left
  rw [newHead]
  exact left

/-- The queue after unlinking a node outside it: the node's successors, if it had no predecessor. -/
theorem Linked.unlink_queued_iff (linked : Linked null links) (nonnull : node ≠ null)
    (outside : ¬ links.Queued null node) (other : Ptr) :
    (links.unlink null node).Queued null other ↔
      if links.prev node = null then links.Reaches null (links.next node) other
      else links.Queued null other := by
  by_cases first : links.prev node = null
  · obtain ⟨nodes, chain⟩ := linked.finite (links.next node)
    have fromNode : Chain null links.next node (node :: nodes) := ⟨rfl, nonnull, chain⟩
    have away : node ∉ nodes := (List.nodup_cons.mp fromNode.nodup).1
    have left := linked.chain_unlink nonnull chain (linked.next_ne_self nonnull)
    rw [List.erase_of_not_mem away] at left
    have newHead : (links.unlink null node).head = links.next node := if_pos first
    rw [if_pos first, Links.Queued, newHead, left.reaches_iff, chain.reaches_iff]
  · obtain ⟨nodes, chain⟩ := linked.finite links.head
    have away : node ∉ nodes := fun inside => outside ⟨nodes, chain, inside⟩
    have notHead : links.head ≠ node := by
      intro same
      obtain ⟨rest, split, _⟩ := Chain.exists_cons chain (same ▸ nonnull)
      exact away (by rw [split, same]; exact List.mem_cons_self)
    have left := linked.chain_unlink nonnull chain notHead
    rw [List.erase_of_not_mem away] at left
    have newHead : (links.unlink null node).head = links.head := if_neg first
    rw [if_neg first, Links.Queued, newHead, left.reaches_iff, Links.Queued, chain.reaches_iff]

/-- Appending an isolated node queues at most that node. -/
theorem Linked.append_queued (linked : Linked null links) (nonnull : node ≠ null)
    (isolated : links.prev node = null) (notHead : node ≠ links.head)
    (notTail : node ≠ links.tail) {other : Ptr}
    (queued : (links.append null node).Queued null other) :
    links.Queued null other ∨ other = node := by
  by_cases empty : links.tail = null
  · have newHead : (links.append null node).head = node := if_pos empty
    have nextNull : (links.append null node).next node = null := by
      simp [Links.append, notTail]
    have chain : Chain null (links.append null node).next (links.append null node).head [node] :=
      ⟨newHead, nonnull, nextNull⟩
    exact Or.inr (List.mem_singleton.mp ((chain.reaches_iff other).mp queued))
  · obtain ⟨nodes, chain⟩ := linked.finite links.head
    have newHead : (links.append null node).head = links.head := if_neg empty
    have left := linked.chain_append nonnull isolated notTail chain notHead.symm
    have member := ((newHead ▸ left : Chain null _ (links.append null node).head _).reaches_iff
      other).mp queued
    split at member
    · rcases List.mem_append.mp member with inside | last
      · exact Or.inl ⟨nodes, chain, inside⟩
      · exact Or.inr (List.mem_singleton.mp last)
    · exact Or.inl ⟨nodes, chain, member⟩

/-! ## Moving a node behind the queue and taking the head off it -/

/-- Requeue a node, then unlink the head the queue had before. -/
def Links.rotate (null : Ptr) (links : Links Ptr) (node : Ptr) : Links Ptr :=
  ((links.unlink null node).append null node).unlink null links.head

/-- Rotating a queued node other than the head moves it to the back of the rest. -/
theorem IsQueue.rotate {head : Ptr} {front back : List Ptr}
    (queue : IsQueue null links (head :: front ++ node :: back)) :
    IsQueue null (links.rotate null node) (front ++ back ++ [node]) := by
  have nonnull : node ≠ null := queue.ne_null node (by simp)
  have first : links.head = head := queue.forward.1
  have absent : node ∉ head :: front ++ back := by
    have nodup := List.nodup_middle.mp queue.nodup
    exact (List.nodup_cons.mp nodup).1
  have appended := (IsQueue.unlink queue).append nonnull absent
  rw [Links.rotate, first]
  exact IsQueue.unlink_head appended

variable {head : Ptr} {rest : List Ptr}

/-- Moving another node to the back leaves the head without a predecessor. -/
theorem Linked.requeue_prev_head (linked : Linked null links)
    (chain : Chain null links.next links.head (head :: rest)) (nonnull : node ≠ null)
    (notHead : node ≠ head) : ((links.unlink null node).append null node).prev head = null := by
  obtain ⟨first, headNonnull, _⟩ := chain
  have headPrev : links.prev head = null := first ▸ linked.head_first (first ▸ headNonnull)
  have notNext : head ≠ links.next node := fun same =>
    nonnull ((linked.prev_of_next nonnull (same ▸ headNonnull) rfl).symm.trans (same ▸ headPrev))
  simp [Links.append, Links.unlink, notHead.symm, notNext, headPrev]

theorem Linked.rotate_head (linked : Linked null links)
    (chain : Chain null links.next links.head (head :: rest)) (nonnull : node ≠ null)
    (notHead : node ≠ head) :
    (links.rotate null node).head = ((links.unlink null node).append null node).next head := by
  rw [Links.rotate, show links.head = head from chain.1]
  exact if_pos (linked.requeue_prev_head chain nonnull notHead)

/-- The requeued node is the tail, unless the head was alone in its chain. -/
theorem Linked.rotate_tail (linked : Linked null links)
    (chain : Chain null links.next links.head (head :: rest)) (nonnull : node ≠ null)
    (notHead : node ≠ head) :
    (links.rotate null node).tail =
      if (links.rotate null node).head = null then null else node := by
  rw [linked.rotate_head chain nonnull notHead, Links.rotate,
    show links.head = head from chain.1]
  change (if ((links.unlink null node).append null node).next head = null
    then ((links.unlink null node).append null node).prev head else node) = _
  rw [linked.requeue_prev_head chain nonnull notHead]

/-- Rotation keeps the rest of the head's chain in order and adds the node if the tail is on it. -/
theorem Linked.rotate_chain (linked : Linked null links)
    (chain : Chain null links.next links.head (head :: rest)) (nonnull : node ≠ null)
    (notHead : node ≠ head) :
    Chain null (links.rotate null node).next (links.rotate null node).head
      (if (links.unlink null node).tail ∈ head :: rest.erase node then rest.erase node ++ [node]
        else rest.erase node) := by
  obtain ⟨first, headNonnull, _⟩ := id chain
  have moved := linked.requeue nonnull
  -- after unlinking the node the head still starts its chain
  have chainUnlinked := linked.chain_unlink nonnull (first ▸ chain) notHead.symm
  rw [List.erase_cons_tail (by simpa using notHead.symm)] at chainUnlinked
  have isolated : (links.unlink null node).prev node = null := by simp [Links.unlink]
  have chainMoved := (linked.unlink nonnull).chain_append nonnull isolated
    (linked.unlink_tail_ne nonnull).symm chainUnlinked notHead.symm
  have joined : (if (links.unlink null node).tail ∈ head :: rest.erase node
      then (head :: rest.erase node) ++ [node] else head :: rest.erase node) =
        head :: (if (links.unlink null node).tail ∈ head :: rest.erase node
          then rest.erase node ++ [node] else rest.erase node) := by
    split <;> rfl
  rw [joined] at chainMoved
  have left := moved.chain_unlink headNonnull chainMoved.2.2 (moved.next_ne_self headNonnull)
  rw [List.erase_of_not_mem (List.nodup_cons.mp chainMoved.nodup).1] at left
  rw [linked.rotate_head chain nonnull notHead, Links.rotate, first]
  exact left

/-- After rotation the queue holds nothing new but the rotated node, and not the old head. -/
theorem Linked.rotate_queued (linked : Linked null links) (nonempty : links.head ≠ null)
    (nonnull : node ≠ null) (notHead : node ≠ links.head) {other : Ptr}
    (queued : (links.rotate null node).Queued null other) :
    (links.Queued null other ∧ other ≠ links.head) ∨ other = node := by
  obtain ⟨nodes, chain⟩ := linked.finite links.head
  obtain ⟨rest, split, _⟩ := Chain.exists_cons chain nonempty
  subst split
  have member := ((linked.rotate_chain chain nonnull notHead).reaches_iff other).mp queued
  have fromRest (inside : other ∈ rest.erase node) :
      links.Queued null other ∧ other ≠ links.head := by
    have inRest := List.mem_of_mem_erase inside
    have notFirst : other ≠ links.head := fun same =>
      (List.nodup_cons.mp (Chain.nodup chain)).1 (same ▸ inRest)
    exact ⟨⟨_, chain, List.mem_cons_of_mem _ inRest⟩, notFirst⟩
  split at member
  · rcases List.mem_append.mp member with inside | last
    · exact Or.inl (fromRest inside)
    · exact Or.inr (List.mem_singleton.mp last)
  · exact Or.inl (fromRest member)

theorem Linked.unlink_head_queued_iff (linked : Linked null links) (nonempty : links.head ≠ null)
    (other : Ptr) :
    (links.unlink null links.head).Queued null other ↔
      links.Queued null other ∧ other ≠ links.head := by
  obtain ⟨nodes, chain⟩ := linked.finite links.head
  obtain ⟨rest, split, _⟩ := Chain.exists_cons chain nonempty
  subst split
  have notInRest := (List.nodup_cons.mp (Chain.nodup chain)).1
  rw [Links.Queued, (linked.chain_unlink_head chain).reaches_iff, Links.Queued, chain.reaches_iff]
  constructor
  · intro inside
    exact ⟨List.mem_cons_of_mem _ inside, fun same => notInRest (same ▸ inside)⟩
  · rintro ⟨inside, notFirst⟩
    exact (List.mem_cons.mp inside).resolve_left notFirst

/--
From a queue, the node joins only if it had a successor, for otherwise
unlinking it has just moved the tail away.
-/
theorem Linked.rotate_queue (linked : Linked null links) (queue : IsQueue null links (head :: rest))
    (nonnull : node ≠ null) (outside : node ∉ head :: rest) :
    Chain null (links.rotate null node).next (links.rotate null node).head
      (if links.next node = null then rest else rest ++ [node]) := by
  have chain := linked.rotate_chain queue.forward nonnull fun same => outside (by simp [same])
  rw [List.erase_of_not_mem fun inside => outside (List.mem_cons_of_mem head inside)] at chain
  by_cases last : links.next node = null
  · have tail : (links.unlink null node).tail = links.prev node := if_pos last
    have away : links.prev node ∉ head :: rest := fun inside =>
      outside (linked.mem_of_prev queue nonnull (queue.ne_null _ inside) inside)
    rw [tail, if_neg away] at chain
    rwa [if_pos last]
  · have tail : (links.unlink null node).tail = links.tail := if_neg last
    have inside : links.tail ∈ head :: rest := by
      obtain ⟨front, split, _⟩ := Chain.exists_cons queue.backward (by
        rw [ne_eq, queue.tail_null_iff]
        simp)
      exact List.mem_reverse.mp (split ▸ List.mem_cons_self)
    rw [tail, if_pos inside] at chain
    rwa [if_neg last]

/-- Rotation leaves a queue behind unless the node was last in a chain of its own. -/
theorem Linked.exists_isQueue_rotate_iff (linked : Linked null links)
    (queue : IsQueue null links (head :: rest)) (nonnull : node ≠ null)
    (notHead : node ≠ head) (notTail : node ≠ links.tail) :
    (∃ nodes, IsQueue null (links.rotate null node) nodes) ↔
      ¬ (links.next node = null ∧ head ≠ links.tail) := by
  by_cases member : node ∈ head :: rest
  · have inRest : node ∈ rest := (List.mem_cons.mp member).resolve_left notHead
    obtain ⟨front, back, split⟩ := List.append_of_mem inRest
    subst split
    refine ⟨?_, fun _ => ⟨_, IsQueue.rotate queue⟩⟩
    rintro _ ⟨last, _⟩
    have ending := Chain.getLast?_of_null queue.forward member last
    exact notTail (by rw [queue.tail_eq, ending]; rfl)
  · have chain := linked.rotate_queue queue nonnull member
    have headNonnull : head ≠ null := queue.forward.2.1
    have rotated : Linked null (links.rotate null node) :=
      (linked.requeue nonnull).unlink (queue.forward.1.symm ▸ headNonnull)
    have single : head = links.tail ↔ rest = [] := by
      rw [queue.tail_eq]
      rcases List.eq_nil_or_concat rest with isNil | ⟨front, last, isConcat⟩
      · simp [isNil]
      · have different : head ≠ last := fun same =>
          (List.nodup_cons.mp queue.nodup).1 (by rw [isConcat, same]; simp)
        rw [List.concat_eq_append] at isConcat
        subst isConcat
        rw [← List.cons_append, List.getLast?_concat]
        simp [different]
    have exact_list : (∃ nodes, IsQueue null (links.rotate null node) nodes) ↔
        IsQueue null (links.rotate null node)
          (if links.next node = null then rest else rest ++ [node]) :=
      ⟨fun ⟨_, other⟩ => other.forward.unique chain ▸ other, fun other => ⟨_, other⟩⟩
    rw [exact_list, rotated.isQueue_iff chain,
      linked.rotate_tail queue.forward nonnull notHead, ne_eq,
      single]
    by_cases last : links.next node = null
    · rw [if_pos last] at chain ⊢
      cases rest with
      | nil => simp [show (links.rotate null node).head = null from chain]
      | cons second rest =>
          have nonempty : (links.rotate null node).head ≠ null := chain.1 ▸ chain.2.1
          have away : (second :: rest).getLast?.getD null ≠ node := by
            rw [List.getLast?_eq_some_getLast (by simp)]
            intro same
            exact member (List.mem_cons_of_mem head (same ▸ List.getLast_mem _))
          rw [if_neg nonempty]
          simp [last, away.symm]
    · rw [if_neg last] at chain ⊢
      have nonempty : (links.rotate null node).head ≠ null := by
        intro isNull
        have empty := chain.unique (chain_nil_iff.mpr isNull)
        simp at empty
      simp [nonempty, last]

/-- Rotating a node without links takes the head off and leaves the node out. -/
theorem Links.rotate_isolated {rest : List Ptr}
    (chain : Chain null links.next links.head (head :: rest))
    (first : links.prev head = null) (nextNull : links.next node = null)
    (prevNull : links.prev node = null) (notHead : node ≠ head) :
    Chain null (links.rotate null node).next (links.rotate null node).head rest := by
  obtain ⟨here, nonnull, later⟩ := chain
  have movedPrev : ((links.unlink null node).append null node).prev head = null := by
    have notNext : ¬ (head ≠ null ∧ head = links.next node) := fun both =>
      both.1 (both.2.trans nextNull)
    simp only [Links.append, Links.unlink, if_neg notHead.symm, if_neg notNext, first]
  have movedNext (other : Ptr) :
      ((links.unlink null node).append null node).next other = links.next other := by
    by_cases same : other = node
    · subst same
      simp [Links.append, Links.unlink, nextNull, prevNull]
    · simp [Links.append, Links.unlink, nextNull, prevNull, same]
  have newHead : (links.rotate null node).head = links.next head := by
    rw [Links.rotate, here]
    exact (if_pos movedPrev).trans (movedNext head)
  rw [newHead]
  refine Segment.congr (fun member inside => ?_) later
  have notFirst : member ≠ head := fun same =>
    (List.nodup_cons.mp (Chain.nodup ⟨here, nonnull, later⟩)).1 (same ▸ inside)
  have notBefore : ¬ (member ≠ null ∧
      member = ((links.unlink null node).append null node).prev head) := fun both =>
    both.1 (both.2.trans movedPrev)
  rw [Links.rotate, here]
  change (if member = head then null
    else if member ≠ null ∧ member = ((links.unlink null node).append null node).prev head then _
    else ((links.unlink null node).append null node).next member) = _
  rw [if_neg notFirst, if_neg notBefore, movedNext]

/--
If rotating a node outside the queue moves it to the back, then the old head is
left without links, and the node and the new head are the two ends.
-/
theorem IsQueue.rotate_ends {rest : List Ptr} (queue : IsQueue null links (head :: rest))
    (outside : node ∉ head :: rest)
    (moved : Chain null (links.rotate null node).next (links.rotate null node).head
      (rest ++ [node])) :
    (links.rotate null node).next head = null ∧ (links.rotate null node).prev head = null ∧
      (links.rotate null node).tail = node ∧
      (links.rotate null node).prev (links.rotate null node).head = null := by
  have first : links.head = head := queue.forward.1
  have headNonnull : head ≠ null := queue.forward.2.1
  have notNode : head ≠ node := fun same => outside (by simp [same])
  have headPrev : links.prev head = null := by
    refine Chain.follow_getLast queue.backward ?_
    simp
  have awayFromHead : head ∉ rest ++ [node] := by
    have notInRest := (List.nodup_cons.mp queue.nodup).1
    simp [notInRest, notNode]
  have newHeadNonnull : (links.rotate null node).head ≠ null := by
    intro isNull
    have empty := moved.unique (chain_nil_iff.mpr isNull)
    simp at empty
  have starts : (links.rotate null node).head ∈ rest ++ [node] := by
    obtain ⟨_, split, _⟩ := Chain.exists_cons moved newHeadNonnull
    rw [split]
    exact List.mem_cons_self
  have rotateHead : (links.rotate null node).head =
      if ((links.unlink null node).append null node).prev head = null then
        ((links.unlink null node).append null node).next head
      else ((links.unlink null node).append null node).head := by
    rw [Links.rotate, first]
    rfl
  have movedPrev : ((links.unlink null node).append null node).prev head = null := by
    by_contra stuck
    by_cases joins : head = links.next node
    · -- the head stays in place, and cannot start the moved chain
      have notFirst : links.prev node ≠ null := by
        intro isNull
        apply stuck
        simp [Links.append, Links.unlink, notNode, ← joins, headNonnull, isNull]
      have tail : (links.unlink null node).tail = links.tail := if_neg (joins ▸ headNonnull)
      have kept : ((links.unlink null node).append null node).head = head := by
        have tailNonnull : links.tail ≠ null := by
          rw [ne_eq, queue.tail_null_iff]
          simp
        have inner : (links.unlink null node).head = links.head := if_neg notFirst
        change (if (links.unlink null node).tail = null then node
          else (links.unlink null node).head) = head
        rw [tail, if_neg tailNonnull, inner, first]
      rw [rotateHead, if_neg stuck, kept] at starts
      exact awayFromHead starts
    · apply stuck
      simp [Links.append, Links.unlink, notNode, joins, headPrev]
  rw [if_pos movedPrev] at rotateHead
  have notHead : (links.rotate null node).head ≠ head := fun same => awayFromHead (same ▸ starts)
  refine ⟨?_, ?_, ?_, ?_⟩
  · rw [Links.rotate, first]
    exact if_pos rfl
  · rw [Links.rotate, first]
    exact if_pos rfl
  · rw [rotateHead] at newHeadNonnull
    rw [Links.rotate, first]
    exact if_neg newHeadNonnull
  · have value (other : Ptr) : (links.rotate null node).prev other =
        if other = head then null
        else if other ≠ null ∧ other = ((links.unlink null node).append null node).next head then
          ((links.unlink null node).append null node).prev head
        else ((links.unlink null node).append null node).prev other := by
      rw [Links.rotate, first]
      rfl
    rw [value, if_neg notHead, if_pos ⟨newHeadNonnull, rotateHead⟩, movedPrev]

end Strays

/-! ## Chains confined to a set of nodes -/

/-- Only allowed nodes carry a link or are an end of the queue. -/
structure Confined (null : Ptr) (allowed : Ptr → Prop) (links : Links Ptr) : Prop where
  head : links.head ≠ null → allowed links.head
  tail : links.tail ≠ null → allowed links.tail
  next : ∀ {node}, links.next node ≠ null → allowed node
  prev : ∀ {node}, links.prev node ≠ null → allowed node

namespace Confined

variable {null : Ptr} {allowed : Ptr → Prop} {links : Links Ptr}

theorem mono {larger : Ptr → Prop} (confined : Confined null allowed links)
    (weaken : ∀ node, allowed node → larger node) : Confined null larger links where
  head nonnull := weaken _ (confined.head nonnull)
  tail nonnull := weaken _ (confined.tail nonnull)
  next nonnull := weaken _ (confined.next nonnull)
  prev nonnull := weaken _ (confined.prev nonnull)

/-- The successor of a node carries a backward link. -/
theorem next_allowed (linked : Linked null links) (confined : Confined null allowed links)
    {node : Ptr} (nonnull : node ≠ null) (more : links.next node ≠ null) :
    allowed (links.next node) := by
  apply confined.prev
  rw [linked.prev_of_next nonnull more rfl]
  exact nonnull

theorem prev_allowed (linked : Linked null links) (confined : Confined null allowed links)
    {node : Ptr} (nonnull : node ≠ null) (more : links.prev node ≠ null) :
    allowed (links.prev node) := by
  apply confined.next
  rw [linked.next_of_prev more nonnull rfl]
  exact nonnull

/-- A chain that starts at an allowed node stays in the set. -/
theorem chain (linked : Linked null links) (confined : Confined null allowed links)
    {start : Ptr} {nodes : List Ptr} (chain : Chain null links.next start nodes)
    (startAllowed : start ≠ null → allowed start) : ∀ node ∈ nodes, allowed node := by
  induction nodes generalizing start with
  | nil => intro node member; cases member
  | cons first rest ih =>
      obtain ⟨here, nonnull, later⟩ := chain
      subst here
      intro node member
      rcases List.mem_cons.mp member with same | inRest
      · rw [same]
        exact startAllowed nonnull
      · exact ih later (confined.next_allowed linked nonnull) node inRest

theorem reaches (linked : Linked null links) (confined : Confined null allowed links)
    {start node : Ptr} (startAllowed : start ≠ null → allowed start)
    (member : links.Reaches null start node) : allowed node := by
  obtain ⟨nodes, chain, inside⟩ := member
  exact confined.chain linked chain startAllowed node inside

theorem queued (linked : Linked null links) (confined : Confined null allowed links) {node : Ptr}
    (member : links.Queued null node) : allowed node :=
  confined.reaches linked confined.head member

section Updates

variable [DecidableEq Ptr] {node : Ptr}

/-- After unlinking, the node itself carries no link and is no end of the queue. -/
theorem unlink (linked : Linked null links) (confined : Confined null allowed links)
    (nonnull : node ≠ null) :
    Confined null (fun other => allowed other ∧ other ≠ node) (links.unlink null node) where
  head headNonnull := by
    refine ⟨?_, linked.unlink_head_ne nonnull⟩
    simp only [Links.unlink] at headNonnull ⊢
    split at headNonnull
    · next first => rw [if_pos first]; exact confined.next_allowed linked nonnull headNonnull
    · next notFirst => rw [if_neg notFirst]; exact confined.head headNonnull
  tail tailNonnull := by
    refine ⟨?_, linked.unlink_tail_ne nonnull⟩
    simp only [Links.unlink] at tailNonnull ⊢
    split at tailNonnull
    · next last => rw [if_pos last]; exact confined.prev_allowed linked nonnull tailNonnull
    · next notLast => rw [if_neg notLast]; exact confined.tail tailNonnull
  next := by
    intro other more
    simp only [Links.unlink] at more
    split at more
    · exact absurd rfl more
    · next different =>
        refine ⟨?_, different⟩
        split at more
        · next before =>
            exact before.2 ▸ confined.prev_allowed linked nonnull (before.2 ▸ before.1)
        · exact confined.next more
  prev := by
    intro other more
    simp only [Links.unlink] at more
    split at more
    · exact absurd rfl more
    · next different =>
        refine ⟨?_, different⟩
        split at more
        · next behind =>
            exact behind.2 ▸ confined.next_allowed linked nonnull (behind.2 ▸ behind.1)
        · exact confined.prev more

theorem append (confined : Confined null allowed links) (nodeAllowed : allowed node) :
    Confined null allowed (links.append null node) where
  head headNonnull := by
    simp only [Links.append] at headNonnull ⊢
    split at headNonnull
    · next empty => rw [if_pos empty]; exact nodeAllowed
    · next nonempty => rw [if_neg nonempty]; exact confined.head headNonnull
  tail _ := nodeAllowed
  next := by
    intro other more
    simp only [Links.append] at more
    split at more
    · next atTail => exact atTail.2 ▸ confined.tail (atTail.2 ▸ atTail.1)
    · split at more
      · exact absurd rfl more
      · exact confined.next more
  prev := by
    intro other more
    simp only [Links.append] at more
    split at more
    · next same => rw [same]; exact nodeAllowed
    · exact confined.prev more

end Updates

end Confined

end SimpleOS.Library.LinkedChain
