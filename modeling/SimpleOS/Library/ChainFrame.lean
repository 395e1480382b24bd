import SimpleOS.Library.LinkedChain

/-!
# Queues that an update leaves alone

Two stores represent the same list when they agree on its ends and on the links
of its nodes.  From this, exactly when unlinking a node leaves the other nodes
of a queue where they were, whether or not the node is in it.
-/

namespace SimpleOS.Library.LinkedChain

variable {Ptr : Type}

/-! ## Stores that represent the same list -/

section SameList

variable {null : Ptr} {links other : Links Ptr} {nodes : List Ptr}

/-- The start of a chain is its first node. -/
theorem Chain.start_eq {follow : Ptr → Ptr} {start : Ptr}
    (chain : Chain null follow start nodes) : start = nodes.head?.getD null := by
  cases nodes with
  | nil => exact chain
  | cons node rest => exact chain.1

/-- Two chains through the same nodes follow the same links. -/
theorem Chain.follow_eq {follow follow' : Ptr → Ptr} {start start' : Ptr}
    (chain : Chain null follow start nodes) (again : Chain null follow' start' nodes) :
    ∀ node ∈ nodes, follow' node = follow node := by
  induction nodes generalizing start start' with
  | nil =>
      intro node member
      cases member
  | cons first rest ih =>
      obtain ⟨_, _, later⟩ := chain
      obtain ⟨_, _, later'⟩ := again
      intro node member
      cases member with
      | head => exact (Chain.start_eq later').trans (Chain.start_eq later).symm
      | tail _ inRest => exact ih later later' node inRest

/-- A store holds the list of a queue exactly when it has its ends and the links of its nodes. -/
theorem IsQueue.congr_iff (queue : IsQueue null links nodes) :
    IsQueue null other nodes ↔
      other.head = links.head ∧ other.tail = links.tail ∧
        ∀ node ∈ nodes, other.next node = links.next node ∧ other.prev node = links.prev node := by
  constructor
  · intro again
    refine ⟨again.head_eq.trans queue.head_eq.symm, again.tail_eq.trans queue.tail_eq.symm, ?_⟩
    intro node member
    exact ⟨Chain.follow_eq queue.forward again.forward node member,
      Chain.follow_eq queue.backward again.backward node (List.mem_reverse.mpr member)⟩
  · rintro ⟨head, tail, agree⟩
    constructor
    · rw [head]
      exact Segment.congr (fun node member => (agree node member).1) queue.forward
    · rw [tail]
      exact Segment.congr (fun node member => (agree node (List.mem_reverse.mp member)).2)
        queue.backward

theorem IsQueue.tail_mem (queue : IsQueue null links nodes) (nonnull : links.tail ≠ null) :
    links.tail ∈ nodes := by
  cases ending : nodes.getLast? with
  | none =>
      rw [queue.tail_eq, ending] at nonnull
      exact absurd rfl nonnull
  | some last =>
      rw [queue.tail_eq, ending]
      exact List.mem_of_getLast? ending

/--
Unlinking the node writes back what a queue beside it holds: with no
predecessor its successor is the head, with no successor its predecessor is the
tail, and a queued neighbour is already linked to the neighbour beyond the node.
-/
structure Links.Beside (null : Ptr) (links : Links Ptr) (nodes : List Ptr) (node : Ptr) :
    Prop where
  first : links.prev node = null → links.next node = links.head
  last : links.next node = null → links.prev node = links.tail
  before : links.prev node ∈ nodes → links.next node = links.next (links.prev node)
  after : links.next node ∈ nodes → links.prev node = links.prev (links.next node)

variable [DecidableEq Ptr] {node : Ptr}

theorem IsQueue.unlink_absent_iff (queue : IsQueue null links nodes) (absent : node ∉ nodes) :
    IsQueue null (links.unlink null node) nodes ↔ links.Beside null nodes node := by
  rw [queue.congr_iff]
  have notNode : ∀ member ∈ nodes, member ≠ node := fun member inside same =>
    absent (same ▸ inside)
  constructor
  · rintro ⟨head, tail, agree⟩
    constructor
    · intro noPredecessor
      exact (if_pos noPredecessor).symm.trans head
    · intro noSuccessor
      exact (if_pos noSuccessor).symm.trans tail
    · intro member
      have kept := (agree _ member).1
      simpa [Links.unlink, notNode _ member, queue.ne_null _ member] using kept
    · intro member
      have kept := (agree _ member).2
      simpa [Links.unlink, notNode _ member, queue.ne_null _ member] using kept
  · intro beside
    refine ⟨?_, ?_, fun member inside => ⟨?_, ?_⟩⟩
    · change (if links.prev node = null then links.next node else links.head) = links.head
      split
      · next noPredecessor => exact beside.first noPredecessor
      · rfl
    · change (if links.next node = null then links.prev node else links.tail) = links.tail
      split
      · next noSuccessor => exact beside.last noSuccessor
      · rfl
    · simp only [Links.unlink, if_neg (notNode member inside)]
      split
      · next neighbour => exact neighbour.2 ▸ beside.before (neighbour.2 ▸ inside)
      · rfl
    · simp only [Links.unlink, if_neg (notNode member inside)]
      split
      · next neighbour => exact neighbour.2 ▸ beside.after (neighbour.2 ▸ inside)
      · rfl

/-- The store that holds the queue without the node. -/
def Links.without (null : Ptr) (links : Links Ptr) (nodes : List Ptr) (node : Ptr) : Links Ptr :=
  if nodes.contains node then links.unlink null node else links

theorem IsQueue.without (queue : IsQueue null links nodes) (node : Ptr) :
    IsQueue null (links.without null nodes node) (nodes.erase node) := by
  by_cases member : node ∈ nodes
  · obtain ⟨front, back, split⟩ := List.append_of_mem member
    subst split
    have absent := (List.nodup_cons.mp (List.nodup_middle.mp queue.nodup)).1
    have notFront : node ∉ front := fun inside => absent (List.mem_append_left back inside)
    rw [Links.without, if_pos (List.contains_iff_mem.mpr member),
      List.erase_append_right _ notFront, List.erase_cons_head]
    exact queue.unlink
  · rw [Links.without, if_neg fun listed => member (List.contains_iff_mem.mp listed),
      List.erase_of_not_mem member]
    exact queue

/-- Unlinking any node takes it, and nothing else, off a queue it is in or lies beside. -/
theorem IsQueue.unlink_erase_iff (queue : IsQueue null links nodes) :
    IsQueue null (links.unlink null node) (nodes.erase node) ↔
      node ∈ nodes ∨ links.Beside null nodes node := by
  by_cases member : node ∈ nodes
  · have removed := queue.without node
    rw [Links.without, if_pos (List.contains_iff_mem.mpr member)] at removed
    exact ⟨fun _ => Or.inl member, fun _ => removed⟩
  · rw [List.erase_of_not_mem member, queue.unlink_absent_iff member]
    exact ⟨Or.inr, fun either => either.resolve_left member⟩

/-! ## What the two updates write -/

/-- Appending to a queue writes the links of the new node and of queued ones. -/
theorem IsQueue.append_other (queue : IsQueue null links nodes) {other : Ptr}
    (apart : other ≠ node) (absent : other ∉ nodes) :
    (links.append null node).next other = links.next other ∧
      (links.append null node).prev other = links.prev other := by
  constructor
  · have notTail : ¬ (other ≠ null ∧ other = links.tail) := by
      rintro ⟨nonnull, same⟩
      exact absent (same ▸ queue.tail_mem (same ▸ nonnull))
    simp only [Links.append, if_neg notTail, if_neg apart]
  · simp only [Links.append, if_neg apart]

/-- Unlinking a queued node writes its own links and those of its two neighbours. -/
theorem IsQueue.unlink_other (queue : IsQueue null links nodes) (member : node ∈ nodes)
    {other : Ptr} (absent : other ∉ nodes) :
    (links.unlink null node).next other = links.next other ∧
      (links.unlink null node).prev other = links.prev other := by
  have apart : other ≠ node := fun same => absent (same ▸ member)
  constructor
  · have notBefore : ¬ (other ≠ null ∧ other = links.prev node) := by
      rintro ⟨nonnull, same⟩
      have inside := queue.backward.follow_mem (List.mem_reverse.mpr member) (same ▸ nonnull)
      exact absent (same ▸ List.mem_reverse.mp inside)
    simp only [Links.unlink, if_neg apart, if_neg notBefore]
  · have notAfter : ¬ (other ≠ null ∧ other = links.next node) := by
      rintro ⟨nonnull, same⟩
      exact absent (same ▸ queue.forward.follow_mem member (same ▸ nonnull))
    simp only [Links.unlink, if_neg apart, if_neg notAfter]

@[simp] theorem Links.unlink_self (null : Ptr) (links : Links Ptr) (node : Ptr) :
    (links.unlink null node).next node = null ∧ (links.unlink null node).prev node = null := by
  simp [Links.unlink]

/-- Appending a node and unlinking it again leaves a queue as it was. -/
theorem IsQueue.append_unlink (queue : IsQueue null links nodes) (nonnull : node ≠ null)
    (absent : node ∉ nodes) :
    IsQueue null ((links.append null node).unlink null node) nodes := by
  have removed := (queue.append nonnull absent).unlink
  rwa [List.append_nil] at removed

end SameList

/-! ## Where links lead -/

/-- Both ends and every link lead to good pointers. -/
structure Links.Within (good : Ptr → Prop) (links : Links Ptr) : Prop where
  head : good links.head
  tail : good links.tail
  next : ∀ node, good (links.next node)
  prev : ∀ node, good (links.prev node)

section Within

variable [DecidableEq Ptr] {good : Ptr → Prop} {null node : Ptr} {links : Links Ptr}

theorem Links.Within.unlink (within : links.Within good) (goodNull : good null) :
    (links.unlink null node).Within good := by
  constructor
  · simp only [Links.unlink]
    split
    · exact within.next node
    · exact within.head
  · simp only [Links.unlink]
    split
    · exact within.prev node
    · exact within.tail
  · intro other
    simp only [Links.unlink]
    split
    · exact goodNull
    · split
      · exact within.next node
      · exact within.next other
  · intro other
    simp only [Links.unlink]
    split
    · exact goodNull
    · split
      · exact within.prev node
      · exact within.prev other

theorem Links.Within.append (within : links.Within good) (goodNull : good null)
    (goodNode : good node) : (links.append null node).Within good := by
  constructor
  · simp only [Links.append]
    split
    · exact goodNode
    · exact within.head
  · exact goodNode
  · intro other
    simp only [Links.append]
    split
    · exact goodNode
    · split
      · exact goodNull
      · exact within.next other
  · intro other
    simp only [Links.append]
    split
    · exact within.tail
    · exact within.prev other

end Within

end SimpleOS.Library.LinkedChain
