import Mathlib.Data.List.Chain
import Mathlib.Data.List.Nodup
import Mathlib.Logic.Function.Basic

/-!
# Circular doubly linked lists

Intrusive lists over nodes of any type: a heap says which nodes are allocated and what their
two links hold. The operations follow pointers, so each is a partial function, undefined at a
null or dangling pointer. `Ring` says that a head and its members form a well-formed circular
list; the operations are specified on rings, and leave every other node alone.
-/

namespace LinkedRing

universe u

variable {ν : Type u}

/-- Which nodes are allocated, and the links of each; `none` is the null pointer. -/
structure Heap (ν : Type u) where
  live : ν → Bool
  prev : ν → Option ν
  next : ν → Option ν

/-! ### Operations -/

/-- `p->prev`, undefined at a bad pointer. -/
def Heap.getPrev (h : Heap ν) (p : Option ν) : Option (Option ν) :=
  p.bind fun x ↦ if h.live x then some (h.prev x) else none

/-- `p->next`, undefined at a bad pointer. -/
def Heap.getNext (h : Heap ν) (p : Option ν) : Option (Option ν) :=
  p.bind fun x ↦ if h.live x then some (h.next x) else none

variable [DecidableEq ν]

/-- `p->prev = q`, undefined at a bad pointer `p`. -/
def Heap.setPrev (h : Heap ν) (p q : Option ν) : Option (Heap ν) :=
  p.bind fun x ↦
    if h.live x then some { h with prev := Function.update h.prev x q } else none

/-- `p->next = q`, undefined at a bad pointer `p`. -/
def Heap.setNext (h : Heap ν) (p q : Option ν) : Option (Heap ν) :=
  p.bind fun x ↦
    if h.live x then some { h with next := Function.update h.next x q } else none

/-- A new node, with null links. -/
def Heap.alloc (h : Heap ν) (x : ν) : Heap ν where
  live := Function.update h.live x true
  prev := Function.update h.prev x none
  next := Function.update h.next x none

/-- A node is given back. -/
def Heap.free (h : Heap ν) (x : ν) : Heap ν := { h with live := Function.update h.live x false }

/-- Both links of the node lead to itself. -/
def initListHead (h : Heap ν) (list : Option ν) : Option (Heap ν) := do
  let h ← h.setNext list list
  h.setPrev list list

/-- A node goes between two others. -/
def listAddBetween (h : Heap ν) (newItem prev next : Option ν) : Option (Heap ν) := do
  let h ← h.setPrev next newItem
  let h ← h.setNext newItem next
  let h ← h.setPrev newItem prev
  h.setNext prev newItem

/-- A node goes to the end of the list. -/
def listAddTail (h : Heap ν) (newItem head : Option ν) : Option (Heap ν) := do
  let prev ← h.getPrev head
  listAddBetween h newItem prev head

/-- Two nodes become neighbours. -/
def listDelBetween (h : Heap ν) (prev next : Option ν) : Option (Heap ν) := do
  let h ← h.setPrev next prev
  h.setNext prev next

/-- A node leaves its list, with both its links null. -/
def listDel (h : Heap ν) (entry : Option ν) : Option (Heap ν) := do
  let prev ← h.getPrev entry
  let next ← h.getNext entry
  let h ← listDelBetween h prev next
  let h ← h.setNext entry none
  h.setPrev entry none

/-! ### What is allocated -/

private theorem Heap.live_setPrev {h h' : Heap ν} {p q : Option ν} (hs : h.setPrev p q = some h') :
    h'.live = h.live := by
  obtain ⟨x, -, hx⟩ := Option.bind_eq_some_iff.mp hs
  split at hx
  · obtain rfl := Option.some.inj hx
    rfl
  · cases hx

private theorem Heap.live_setNext {h h' : Heap ν} {p q : Option ν} (hs : h.setNext p q = some h') :
    h'.live = h.live := by
  obtain ⟨x, -, hx⟩ := Option.bind_eq_some_iff.mp hs
  split at hx
  · obtain rfl := Option.some.inj hx
    rfl
  · cases hx

/-- `INIT_LIST_HEAD` allocates nothing. -/
theorem live_initListHead {h h' : Heap ν} {x : Option ν} (hs : initListHead h x = some h') :
    h'.live = h.live := by
  obtain ⟨h₁, h1, h2⟩ := Option.bind_eq_some_iff.mp hs
  rw [Heap.live_setPrev h2, Heap.live_setNext h1]

/-- `list_add_tail` allocates nothing. -/
theorem live_listAddTail {h h' : Heap ν} {x head : Option ν}
    (hs : listAddTail h x head = some h') : h'.live = h.live := by
  obtain ⟨prev, -, hadd⟩ := Option.bind_eq_some_iff.mp hs
  obtain ⟨h₁, h1, hadd⟩ := Option.bind_eq_some_iff.mp hadd
  obtain ⟨h₂, h2, hadd⟩ := Option.bind_eq_some_iff.mp hadd
  obtain ⟨h₃, h3, h4⟩ := Option.bind_eq_some_iff.mp hadd
  rw [Heap.live_setNext h4, Heap.live_setPrev h3, Heap.live_setNext h2, Heap.live_setPrev h1]

/-- `list_del` frees nothing. -/
theorem live_listDel {h h' : Heap ν} {x : Option ν} (hs : listDel h x = some h') :
    h'.live = h.live := by
  obtain ⟨prev, -, hdel⟩ := Option.bind_eq_some_iff.mp hs
  obtain ⟨next, -, hdel⟩ := Option.bind_eq_some_iff.mp hdel
  obtain ⟨h₁, hbetween, hdel⟩ := Option.bind_eq_some_iff.mp hdel
  obtain ⟨h₂, h2, h3⟩ := Option.bind_eq_some_iff.mp hdel
  obtain ⟨h₃, h4, h5⟩ := Option.bind_eq_some_iff.mp hbetween
  rw [Heap.live_setPrev h3, Heap.live_setNext h2, Heap.live_setNext h5, Heap.live_setPrev h4]

/-! ### Rings -/

/-- The two nodes are neighbours in this order. -/
def Linked (h : Heap ν) (x y : ν) : Prop := h.next x = some y ∧ h.prev y = some x

/-- A well-formed circular list: the head and the members are different allocated nodes, and
neighbours are linked both ways, around to the head. -/
structure Ring (h : Heap ν) (head : ν) (xs : List ν) : Prop where
  live : ∀ x ∈ head :: xs, h.live x = true
  nodup : (head :: xs).Nodup
  chain : ((head :: xs) ++ [head]).IsChain (Linked h)

/-- The heaps agree on every node outside `S`. -/
def Frame (S : ν → Prop) (h h' : Heap ν) : Prop :=
  ∀ x, ¬S x → h'.live x = h.live x ∧ h'.prev x = h.prev x ∧ h'.next x = h.next x

variable {h h' h'' : Heap ν} {head x y : ν} {xs ys : List ν} {S T : ν → Prop}

omit [DecidableEq ν] in

/-- Frames compose. -/
theorem Frame.trans (h₁ : Frame S h h') (h₂ : Frame S h' h'') : Frame S h h'' := by
  intro x hx
  obtain ⟨hl, hp, hn⟩ := h₁ x hx
  obtain ⟨hl', hp', hn'⟩ := h₂ x hx
  exact ⟨hl'.trans hl, hp'.trans hp, hn'.trans hn⟩

omit [DecidableEq ν] in

/-- A larger set of nodes leaves less to frame. -/
theorem Frame.mono (hf : Frame S h h') (hST : ∀ x, S x → T x) : Frame T h h' := by
  intro x hx
  exact hf x fun hS ↦ hx (hST x hS)

omit [DecidableEq ν] in
/-- Links are kept where the `next` of all nodes but the last and the `prev` of all but the
first are. -/
theorem chain_frame {l : List ν} (hl : l.IsChain (Linked h))
    (hnext : ∀ a ∈ l.dropLast, h'.next a = h.next a)
    (hprev : ∀ b ∈ l.tail, h'.prev b = h.prev b) : l.IsChain (Linked h') := by
  induction hl with
  | nil => exact .nil
  | singleton a => exact .singleton a
  | @cons_cons a b l hab _ ih =>
    apply List.IsChain.cons_cons
    · rw [Linked, hnext a (by simp), hprev b (by simp)]
      exact hab
    · apply ih
      · intro c hc
        exact hnext c (by simp [hc])
      · intro c hc
        exact hprev c (List.mem_cons_of_mem b hc)

omit [DecidableEq ν] in
/-- A ring that shares no node with the changed ones is kept. -/
theorem Ring.frame (hr : Ring h head xs) (hf : Frame S h h') (hS : ∀ x ∈ head :: xs, ¬S x) :
    Ring h' head xs := by
  refine ⟨?_, hr.nodup, chain_frame hr.chain ?_ ?_⟩
  · intro x hx
    rw [(hf x (hS x hx)).1]
    exact hr.live x hx
  · intro a ha
    rw [List.dropLast_concat] at ha
    exact (hf a (hS a ha)).2.2
  · intro b hb
    refine (hf b (hS b ?_)).2.1
    rw [List.cons_append, List.tail_cons, List.mem_append, List.mem_singleton] at hb
    rcases hb with hb | rfl
    · exact List.mem_cons_of_mem head hb
    · exact List.mem_cons_self

omit [DecidableEq ν] in
/-- The `next` of a node of the ring leads to the node after it, or back to the head. -/
theorem Ring.getNext (hr : Ring h head xs) (pre : List ν) {rest : List ν}
    (hs : head :: xs = pre ++ x :: rest) :
    h.getNext (some x) = some (rest ++ [head]).head? := by
  have hx : x ∈ head :: xs := by
    rw [hs]
    exact List.mem_append_right pre List.mem_cons_self
  have hchain := hr.chain
  rw [hs, List.append_assoc, List.cons_append, List.isChain_split] at hchain
  have hnext : h.next x = (rest ++ [head]).head? := by
    cases rest with
    | nil => exact (List.isChain_cons_cons.mp hchain.2).1.1
    | cons z rest => exact (List.isChain_cons_cons.mp hchain.2).1.1
  rw [Heap.getNext, Option.bind_some, if_pos (hr.live x hx), hnext]

omit [DecidableEq ν] in
/-- The `prev` of the head leads to the last node. -/
theorem Ring.prev_head (hr : Ring h head xs) {pre : List ν} {l : ν}
    (hs : head :: xs = pre ++ [l]) : h.prev head = some l := by
  have hchain := hr.chain
  rw [hs, List.append_assoc, List.singleton_append, List.isChain_split] at hchain
  exact (List.isChain_cons_cons.mp hchain.2).1.2

/-! ### What the operations do to rings -/

/-- A fresh node is a ring of its own. -/
theorem initListHead_spec (hx : h.live x = true) : ∃ h', initListHead h (some x) = some h' ∧
    h'.live = h.live ∧ Ring h' x [] ∧ Frame (· = x) h h' := by
  refine ⟨⟨h.live, Function.update h.prev x (some x), Function.update h.next x (some x)⟩,
    ?_, rfl, ⟨?_, List.nodup_singleton x, ?_⟩, ?_⟩
  · simp [initListHead, Heap.setNext, Heap.setPrev, hx]
  · intro y hy
    rw [List.mem_singleton.mp hy]
    exact hx
  · apply List.isChain_pair.mpr
    simp [Linked]
  · intro y hy
    simp [Function.update_of_ne hy]

/-- `list_add_tail` on a ring. -/
theorem Ring.addTail (hr : Ring h head xs) (hx : h.live x = true) (hnot : x ∉ head :: xs) :
    ∃ h', listAddTail h (some x) (some head) = some h' ∧ h'.live = h.live ∧
      Ring h' head (xs ++ [x]) ∧ Frame (fun y ↦ y = x ∨ y ∈ head :: xs) h h' := by
  obtain ⟨pre, l, hs⟩ : ∃ pre l, head :: xs = pre ++ [l] :=
    ⟨_, _, (List.dropLast_append_getLast (List.cons_ne_nil head xs)).symm⟩
  have hl : l ∈ head :: xs := by
    rw [hs]
    exact List.mem_append_right pre (List.mem_singleton_self l)
  have hhead : head ∈ head :: xs := List.mem_cons_self
  have hxl : x ≠ l := fun heq ↦ hnot (heq ▸ hl)
  have hxh : x ≠ head := fun heq ↦ hnot (heq ▸ hhead)
  have hpre : l ∉ pre := by
    have hnd := hr.nodup
    rw [hs, ← List.concat_eq_append, List.nodup_concat] at hnd
    exact hnd.1
  refine ⟨⟨h.live, Function.update (Function.update h.prev head (some x)) x (some l),
    Function.update (Function.update h.next x (some head)) l (some x)⟩, ?_, rfl, ⟨?_, ?_, ?_⟩, ?_⟩
  · simp [listAddTail, listAddBetween, Heap.getPrev, Heap.setPrev, Heap.setNext,
      hr.prev_head hs, hx, hr.live head hhead, hr.live l hl]
  · intro y hy
    rw [← List.cons_append, List.mem_append, List.mem_singleton] at hy
    rcases hy with hy | rfl
    · exact hr.live y hy
    · exact hx
  · rw [← List.cons_append, ← List.concat_eq_append]
    exact hr.nodup.concat hnot
  · have hold : (pre ++ [l]).IsChain (Linked h) := by
      rw [← hs]
      exact hr.chain.left_of_append
    rw [← List.cons_append, hs, List.append_assoc, List.append_assoc, List.singleton_append,
      List.singleton_append, List.isChain_append_cons_cons]
    refine ⟨chain_frame hold ?_ ?_, ?_, List.isChain_pair.mpr ?_⟩
    · intro a ha
      rw [List.dropLast_concat] at ha
      have hax : a ≠ x := by
        rintro rfl
        exact hnot (hs ▸ List.mem_append_left _ ha)
      have hal : a ≠ l := by
        rintro rfl
        exact hpre ha
      simp [Function.update_of_ne, hax, hal]
    · intro b hb
      have hmem : b ∈ xs := by
        rw [← hs] at hb
        exact hb
      have hbx : b ≠ x := by
        rintro rfl
        exact hnot (List.mem_cons_of_mem head hmem)
      have hbh : b ≠ head := by
        rintro rfl
        exact (List.nodup_cons.mp hr.nodup).1 hmem
      simp [Function.update_of_ne, hbx, hbh]
    · simp [Linked]
    · simp [Linked, Function.update_of_ne, hxl, hxh.symm]
  · intro y hy
    rw [not_or] at hy
    have hyl : y ≠ l := fun heq ↦ hy.2 (heq ▸ hl)
    have hyh : y ≠ head := fun heq ↦ hy.2 (heq ▸ hhead)
    simp [Function.update_of_ne, hy.1, hyl, hyh]

/-- The node `p` before `x` and the node `n` after it, and which nodes are neither of them. -/
structure Around (head : ν) (xs : List ν) (x : ν) (ys pre : List ν) (p n : ν) (post : List ν) :
    Prop where
  before : head :: xs = pre ++ [p]
  after : ys ++ [head] = n :: post
  prev_mem : p ∈ head :: (xs ++ x :: ys)
  next_mem : n ∈ head :: (xs ++ x :: ys)
  prev_ne : p ≠ x
  next_ne : n ≠ x
  pre_ne : ∀ a ∈ pre, a ≠ x ∧ a ≠ p
  xs_ne : ∀ b ∈ xs, b ≠ x ∧ b ≠ n
  ys_ne : ∀ a ∈ ys, a ≠ x ∧ a ≠ p
  post_ne : ∀ b ∈ post, b ≠ x ∧ b ≠ n

omit [DecidableEq ν] in
private theorem exists_around (hnodup : (head :: xs ++ x :: ys).Nodup) :
    ∃ pre p n post, Around head xs x ys pre p n post := by
  obtain ⟨pre, p, hp⟩ : ∃ pre p, head :: xs = pre ++ [p] :=
    ⟨_, _, (List.dropLast_append_getLast (List.cons_ne_nil head xs)).symm⟩
  obtain ⟨n, post, hn⟩ : ∃ n post, ys ++ [head] = n :: post :=
    List.exists_cons_of_ne_nil (List.append_ne_nil_of_right_ne_nil ys (List.cons_ne_nil head []))
  obtain ⟨hfront, hback, hdisj⟩ := List.nodup_append.mp hnodup
  have hys := List.nodup_cons.mp hback
  have hpmem : p ∈ head :: xs := by simp [hp]
  have hnmem : n ∈ ys ++ [head] := by simp [hn]
  have hheadx : head ≠ x := hdisj head List.mem_cons_self x List.mem_cons_self
  have hheadys : head ∉ ys := fun h ↦
    hdisj head List.mem_cons_self head (List.mem_cons_of_mem x h) rfl
  -- after `x` come nodes of `ys`, and then the head again
  have hring (b : ν) (hb : b ∈ ys ++ [head]) : b ≠ x := by
    rcases List.mem_append.mp hb with hb | hb
    · exact fun heq ↦ hys.1 (heq ▸ hb)
    · rw [List.mem_singleton.mp hb]
      exact hheadx
  refine ⟨pre, p, n, post, hp, hn, List.mem_append_left _ hpmem, ?_,
    hdisj p hpmem x List.mem_cons_self, hring n hnmem, ?_, ?_, ?_, ?_⟩
  · rcases List.mem_append.mp hnmem with hmem | hmem
    · exact List.mem_append_right (head :: xs) (List.mem_cons_of_mem x hmem)
    · rw [List.mem_singleton.mp hmem]
      exact List.mem_cons_self
  · intro a ha
    rw [hp] at hfront hdisj
    exact ⟨hdisj a (List.mem_append_left [p] ha) x List.mem_cons_self,
      (List.nodup_append.mp hfront).2.2 a ha p (List.mem_singleton_self p)⟩
  · intro b hb
    have hmem : b ∈ head :: xs := List.mem_cons_of_mem head hb
    refine ⟨hdisj b hmem x List.mem_cons_self, ?_⟩
    rintro rfl
    rcases List.mem_append.mp hnmem with hin | hin
    · exact hdisj b hmem b (List.mem_cons_of_mem x hin) rfl
    · rw [List.mem_singleton.mp hin] at hb
      exact (List.nodup_cons.mp hfront).1 hb
  · intro a ha
    refine ⟨hring a (List.mem_append_left _ ha), ?_⟩
    exact (hdisj p hpmem a (List.mem_cons_of_mem x ha)).symm
  · intro b hb
    have hnd : (n :: post).Nodup := by
      rw [← hn, ← List.concat_eq_append]
      exact hys.2.concat hheadys
    refine ⟨hring b (hn ▸ List.mem_cons_of_mem n hb), ?_⟩
    exact fun heq ↦ (List.nodup_cons.mp hnd).1 (heq ▸ hb)

/-- `list_del` on a member of a ring. -/
theorem Ring.del (hr : Ring h head (xs ++ x :: ys)) :
    ∃ h', listDel h (some x) = some h' ∧ h'.live = h.live ∧ Ring h' head (xs ++ ys) ∧
      Frame (· ∈ head :: (xs ++ x :: ys)) h h' := by
  have hnodup : (head :: xs ++ x :: ys).Nodup := hr.nodup
  obtain ⟨pre, p, n, post, ha⟩ := exists_around hnodup
  have hsplit : head :: (xs ++ x :: ys) ++ [head] = pre ++ p :: x :: n :: post := by
    rw [← List.cons_append, ha.before, List.append_assoc, List.append_assoc,
      List.singleton_append, List.cons_append, ha.after]
  have hsplit' : head :: (xs ++ ys) ++ [head] = pre ++ p :: n :: post := by
    rw [← List.cons_append, ha.before, List.append_assoc, List.append_assoc,
      List.singleton_append, ha.after]
  have hchain := hr.chain
  rw [hsplit, List.isChain_append_cons_cons, List.isChain_cons_cons] at hchain
  obtain ⟨hpre, hpx, hxn, hpost⟩ := hchain
  have hlive : h.live x = true :=
    hr.live x (List.mem_append_right (head :: xs) List.mem_cons_self)
  refine ⟨⟨h.live, Function.update (Function.update h.prev n (some p)) x none,
    Function.update (Function.update h.next p (some n)) x none⟩, ?_, rfl, ⟨?_, ?_, ?_⟩, ?_⟩
  · simp [listDel, listDelBetween, Heap.getPrev, Heap.getNext, Heap.setPrev, Heap.setNext,
      hpx.2, hxn.1, hlive, hr.live p ha.prev_mem, hr.live n ha.next_mem]
  · intro y hy
    apply hr.live y
    rw [List.mem_cons, List.mem_append] at hy ⊢
    exact hy.imp_right (Or.imp_right (List.mem_cons_of_mem x))
  · exact hnodup.sublist ((List.sublist_cons_self x ys).append_left (head :: xs))
  · rw [hsplit', List.isChain_append_cons_cons]
    refine ⟨chain_frame hpre ?_ ?_, ?_, chain_frame hpost ?_ ?_⟩
    · intro y hy
      rw [List.dropLast_concat] at hy
      simp [Function.update_of_ne, ha.pre_ne y hy]
    · intro y hy
      rw [← ha.before] at hy
      simp [Function.update_of_ne, ha.xs_ne y hy]
    · simp [Linked, Function.update_of_ne, ha.prev_ne, ha.next_ne]
    · intro y hy
      rw [← ha.after, List.dropLast_concat] at hy
      simp [Function.update_of_ne, ha.ys_ne y hy]
    · intro y hy
      simp [Function.update_of_ne, ha.post_ne y hy]
  · intro y hy
    have hyp : y ≠ p := fun heq ↦ hy (heq ▸ ha.prev_mem)
    have hyn : y ≠ n := fun heq ↦ hy (heq ▸ ha.next_mem)
    have hyx : y ≠ x := by
      rintro rfl
      exact hy (List.mem_append_right (head :: xs) List.mem_cons_self)
    simp [Function.update_of_ne, hyp, hyx, hyn]

/-- `list_del` on a node that is on no list yet. -/
theorem Ring.del_alone (hr : Ring h x []) : ∃ h', listDel h (some x) = some h' ∧
    h'.live = h.live ∧ Frame (· = x) h h' := by
  have hx : h.live x = true := hr.live x List.mem_cons_self
  obtain ⟨hnext, hprev⟩ : Linked h x x := List.isChain_pair.mp hr.chain
  refine ⟨⟨h.live, Function.update h.prev x none, Function.update h.next x none⟩, ?_, rfl, ?_⟩
  · simp [listDel, listDelBetween, Heap.getPrev, Heap.getNext, Heap.setPrev,
      Heap.setNext, hx, hnext, hprev]
  · intro y hy
    simp [Function.update_of_ne hy]

/-! ### Allocation -/

private theorem frame_alloc (h : Heap ν) (x : ν) : Frame (· = x) h (h.alloc x) := by
  intro y hy
  simp [Heap.alloc, Function.update_of_ne hy]

/-- Only the node that is freed is gone. -/
@[simp] theorem Heap.live_free (h : Heap ν) (x : ν) :
    (h.free x).live = Function.update h.live x false := rfl

private theorem frame_free (h : Heap ν) (x : ν) : Frame (· = x) h (h.free x) := by
  intro y hy
  simp [Heap.free, Function.update_of_ne hy]

/-- A new node, made a ring of its own and put at the end of another. -/
theorem Ring.allocTail (hr : Ring h head xs) (hx : h.live x = false) :
    ∃ h₁ h₂, initListHead (h.alloc x) (some x) = some h₁ ∧
      listAddTail h₁ (some x) (some head) = some h₂ ∧ h₂.live = Function.update h.live x true ∧
      Ring h₂ head (xs ++ [x]) := by
  have hnot : x ∉ head :: xs := by
    intro hmem
    rw [hr.live x hmem] at hx
    cases hx
  have hlive : (h.alloc x).live x = true := Function.update_self ..
  obtain ⟨h₁, hinit, hlive₁, _, hframe⟩ := initListHead_spec hlive
  have hr₁ : Ring h₁ head xs := by
    apply hr.frame ((frame_alloc h x).trans hframe)
    rintro y hy rfl
    exact hnot hy
  rw [← hlive₁] at hlive
  obtain ⟨h₂, hadd, hlive₂, hr₂, _⟩ := hr₁.addTail hlive hnot
  exact ⟨h₁, h₂, hinit, hadd, hlive₂.trans hlive₁, hr₂⟩

/-- A member is taken off the ring and given back. -/
theorem Ring.delFree (hr : Ring h head (xs ++ x :: ys)) :
    ∃ h', listDel h (some x) = some h' ∧ h'.live = h.live ∧ Ring (h'.free x) head (xs ++ ys) := by
  obtain ⟨h', hdel, hlive, hr', _⟩ := hr.del
  refine ⟨h', hdel, hlive, hr'.frame (frame_free h' x) ?_⟩
  have hperm : (head :: xs ++ x :: ys).Perm (x :: (head :: xs ++ ys)) := List.perm_middle
  have hnodup := hperm.nodup_iff.mp hr.nodup
  rintro y hy rfl
  exact (List.nodup_cons.mp hnodup).1 hy

end LinkedRing
