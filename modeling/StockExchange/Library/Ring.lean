import Mathlib.Data.List.Chain
import Mathlib.Data.List.Nodup
import Mathlib.Data.List.Rotate
import Mathlib.Logic.Relation

/-!
# Circular doubly linked lists

`next` and `prev` are partial link functions. A ring is a duplicate-free list of
nodes whose neighbours are linked both ways, the last one closing on the first.
An update of the links is described by the values it sets and by what it keeps.
-/

namespace Ring

universe u
variable {α : Type u} {next prev next' prev' : α → Option α} {xs ys : List α} {a b y : α}

/-- `b` comes after `a`, and `a` before `b`. -/
def Linked (next prev : α → Option α) (a b : α) : Prop :=
  next a = some b ∧ prev b = some a

structure IsRing (next prev : α → Option α) (xs : List α) : Prop where
  nodup : xs.Nodup
  links : xs.IsChain (Linked next prev)
  closes : ∀ a ∈ xs.getLast?, ∀ b ∈ xs.head?, Linked next prev a b

theorem getLast?_cons_concat (b : α) (xs : List α) (a : α) :
    (b :: (xs ++ [a])).getLast? = some a := by
  rw [← List.cons_append, List.getLast?_concat]

theorem isRing_nil : IsRing next prev ([] : List α) :=
  ⟨List.nodup_nil, .nil, by simp⟩

theorem isRing_singleton : IsRing next prev [a] ↔ Linked next prev a a := by
  constructor
  · intro h
    exact h.closes a rfl a rfl
  · intro h
    exact ⟨List.nodup_singleton a, .singleton a, by simpa using h⟩

/-- Any node of a ring may be taken as its first. -/
theorem IsRing.rotate (h : IsRing next prev (xs ++ ys)) : IsRing next prev (ys ++ xs) := by
  rcases List.eq_nil_or_concat xs with rfl | ⟨xs, a, rfl⟩
  · simpa using h
  rcases ys with _ | ⟨b, ys⟩
  · simpa using h
  obtain ⟨hx, hy, hxy⟩ := List.isChain_append.mp h.links
  refine ⟨List.nodup_append_comm.mp h.nodup, hy.append hx ?_, ?_⟩
  · intro c hc d hd
    refine h.closes c ?_ d ?_
    · rw [List.getLast?_append, hc]
      rfl
    · rcases xs with _ | ⟨e, xs⟩ <;> simpa using hd
  · intro c hc d hd
    refine hxy c ?_ d (by simpa using hd)
    rw [List.getLast?_append] at hc
    simpa using hc

/-- The links outside a ring are irrelevant to it. -/
theorem IsRing.congr (h : IsRing next prev xs) (hnext : ∀ x ∈ xs, next' x = next x)
    (hprev : ∀ x ∈ xs, prev' x = prev x) : IsRing next' prev' xs := by
  have keep : ∀ c ∈ xs, ∀ d ∈ xs, Linked next prev c d → Linked next' prev' c d :=
    fun c hc d hd hl => ⟨(hnext c hc).trans hl.1, (hprev d hd).trans hl.2⟩
  refine ⟨h.nodup, h.links.imp_of_mem_imp fun c d hc hd => keep c hc d hd, ?_⟩
  intro c hc d hd
  exact keep c (List.mem_of_getLast? hc) d (List.mem_of_head? hd) (h.closes c hc d hd)

theorem IsRing.linked (h : IsRing next prev (xs ++ a :: b :: ys)) : Linked next prev a b :=
  List.isChain_iff_forall_rel_of_append_cons_cons.mp h.links rfl

theorem IsRing.linked_head (h : IsRing next prev (a :: b :: ys)) : Linked next prev a b :=
  (List.isChain_cons_cons.mp h.links).1

theorem IsRing.last_head (h : IsRing next prev xs) (ha : xs.getLast? = some a)
    (hb : xs.head? = some b) : Linked next prev a b :=
  h.closes a ha b hb

/-- Changing the forward link of the last node and the backward link of the
first one keeps the open chain between them. -/
theorem links_congr (hnd : xs.Nodup) (h : xs.IsChain (Linked next prev))
    (ha : xs.getLast? = some a) (hb : xs.head? = some b)
    (hnext : ∀ x ∈ xs, x ≠ a → next' x = next x)
    (hprev : ∀ x ∈ xs, x ≠ b → prev' x = prev x) :
    xs.IsChain (Linked next' prev') := by
  refine List.isChain_iff_forall_rel_of_append_cons_cons.mpr ?_
  intro c d l₁ l₂ hsplit
  have hl := List.isChain_iff_forall_rel_of_append_cons_cons.mp h hsplit
  subst hsplit
  have hca : c ≠ a := by
    rintro rfl
    have hmem : c ∈ d :: l₂ := List.mem_of_getLast? (by simpa using ha)
    exact (List.nodup_cons.mp (List.nodup_append.mp hnd).2.1).1 hmem
  have hdb : d ≠ b := by
    rintro rfl
    rcases l₁ with _ | ⟨e, l₁⟩
    · have hcd : c = d := by simpa using hb
      exact (List.nodup_cons.mp hnd).1 (by simp [hcd])
    · have hed : e = d := by simpa using hb
      exact (List.nodup_cons.mp hnd).1 (by simp [hed])
  exact ⟨(hnext c (by simp) hca).trans hl.1, (hprev d (by simp) hdb).trans hl.2⟩

/-- Inserting `y` between the last node and the first one. -/
theorem IsRing.concat (h : IsRing next prev xs) (ha : xs.getLast? = some a)
    (hb : xs.head? = some b) (hy : y ∉ xs)
    (hnext : ∀ x ∈ xs, x ≠ a → next' x = next x) (hprev : ∀ x ∈ xs, x ≠ b → prev' x = prev x)
    (hay : Linked next' prev' a y) (hyb : Linked next' prev' y b) :
    IsRing next' prev' (xs ++ [y]) := by
  refine ⟨?_, (links_congr h.nodup h.links ha hb hnext hprev).append (.singleton y) ?_, ?_⟩
  · exact List.nodup_append.mpr ⟨h.nodup, List.nodup_singleton y, by
      rintro c hc d hd rfl
      exact hy (List.mem_singleton.mp hd ▸ hc)⟩
  · intro c hc d hd
    have hca : a = c := by simpa [ha] using hc
    have hdy : y = d := by simpa using hd
    exact hca ▸ hdy ▸ hay
  · intro c hc d hd
    have hcy : y = c := by simpa using hc
    have hdb : b = d := by
      rcases xs with _ | ⟨e, xs⟩
      · simp at hb
      · simp_all
    exact hcy ▸ hdb ▸ hyb

/-- Inserting `y` anywhere, its neighbours read off the ring. -/
theorem IsRing.insert (h : IsRing next prev (xs ++ ys)) (ha : (ys ++ xs).getLast? = some a)
    (hb : (ys ++ xs).head? = some b) (hy : y ∉ xs ++ ys)
    (hnext : ∀ x ∈ xs ++ ys, x ≠ a → next' x = next x)
    (hprev : ∀ x ∈ xs ++ ys, x ≠ b → prev' x = prev x)
    (hay : Linked next' prev' a y) (hyb : Linked next' prev' y b) :
    IsRing next' prev' (xs ++ y :: ys) := by
  have hmem : ∀ x, x ∈ ys ++ xs ↔ x ∈ xs ++ ys := by simp [or_comm]
  have hring := h.rotate.concat ha hb (fun hx => hy ((hmem y).mp hx))
    (fun x hx => hnext x ((hmem x).mp hx)) (fun x hx => hprev x ((hmem x).mp hx)) hay hyb
  have hsplit : ys ++ xs ++ [y] = ys ++ (xs ++ [y]) := by simp
  rw [hsplit] at hring
  simpa using hring.rotate

/-- Removing the first node. -/
theorem IsRing.tail (h : IsRing next prev (y :: xs)) (ha : xs.getLast? = some a)
    (hb : xs.head? = some b) (hnext : ∀ x ∈ xs, x ≠ a → next' x = next x)
    (hprev : ∀ x ∈ xs, x ≠ b → prev' x = prev x) (hab : Linked next' prev' a b) :
    IsRing next' prev' xs := by
  rcases xs with _ | ⟨c, xs⟩
  · simp at ha
  have hcb : c = b := by simpa using hb
  subst hcb
  have rest := links_congr h.nodup.of_cons h.links.tail ha hb hnext hprev
  refine ⟨h.nodup.of_cons, rest, ?_⟩
  intro d hd e he
  have hda : a = d := by simpa [ha] using hd
  have hec : c = e := by simpa using he
  exact hda ▸ hec ▸ hab

/-- Removing any node, its neighbours read off the ring. -/
theorem IsRing.remove (h : IsRing next prev (xs ++ y :: ys)) (ha : (ys ++ xs).getLast? = some a)
    (hb : (ys ++ xs).head? = some b) (hnext : ∀ x ∈ xs ++ ys, x ≠ a → next' x = next x)
    (hprev : ∀ x ∈ xs ++ ys, x ≠ b → prev' x = prev x) (hab : Linked next' prev' a b) :
    IsRing next' prev' (xs ++ ys) := by
  have hmem : ∀ x, x ∈ ys ++ xs ↔ x ∈ xs ++ ys := by simp [or_comm]
  have hrot : IsRing next prev (y :: (ys ++ xs)) := by simpa using h.rotate
  exact (hrot.tail ha hb (fun x hx => hnext x ((hmem x).mp hx))
    (fun x hx => hprev x ((hmem x).mp hx)) hab).rotate

/-- The neighbours of a node that is not alone. -/
theorem IsRing.neighbours (h : IsRing next prev (xs ++ y :: ys))
    (ha : (ys ++ xs).getLast? = some a) (hb : (ys ++ xs).head? = some b) :
    Linked next prev a y ∧ Linked next prev y b := by
  have hrot : IsRing next prev (y :: (ys ++ xs)) := by simpa using h.rotate
  constructor
  · refine hrot.last_head ?_ rfl
    rw [List.getLast?_cons, ha]
    rfl
  · rcases hzs : ys ++ xs with _ | ⟨c, zs⟩
    · simp [hzs] at hb
    · rw [hzs] at hrot hb
      have hcb : c = b := by simpa using hb
      exact hcb ▸ hrot.linked_head

/-- The list of a ring determines the links of its nodes. -/
theorem IsRing.agree (h : IsRing next prev xs) (h' : IsRing next' prev' xs) (hy : y ∈ xs) :
    next' y = next y ∧ prev' y = prev y := by
  obtain ⟨l₁, l₂, rfl⟩ := List.append_of_mem hy
  rcases hl : l₂ ++ l₁ with _ | ⟨b, l⟩
  · obtain ⟨rfl, rfl⟩ := List.append_eq_nil_iff.mp hl
    have halone := isRing_singleton.mp h
    have halone' := isRing_singleton.mp h'
    exact ⟨halone'.1.trans halone.1.symm, halone'.2.trans halone.2.symm⟩
  · have hb : (l₂ ++ l₁).head? = some b := by rw [hl]; rfl
    have ha := List.getLast?_eq_some_getLast (show l₂ ++ l₁ ≠ [] by simp [hl])
    obtain ⟨hay, hyb⟩ := h.neighbours ha hb
    obtain ⟨hay', hyb'⟩ := h'.neighbours ha hb
    exact ⟨hyb'.1.trans hyb.1.symm, hay'.2.trans hay.2.symm⟩

/-- In a ring whose list is sorted every link but the closing one is a step up. -/
theorem IsRing.rel_of_next {r : α → α → Prop} (h : IsRing next prev (y :: xs))
    (sorted : (y :: xs).Pairwise r) (ha : a ∈ y :: xs) (hab : next a = some b) (hne : b ≠ y) :
    r a b := by
  obtain ⟨l₁, l₂, hsplit⟩ := List.append_of_mem ha
  rcases l₂ with _ | ⟨c, l₂⟩
  · have hlast : (y :: xs).getLast? = some a := by rw [hsplit, List.getLast?_append]; rfl
    exact absurd (Option.some.inj (hab.symm.trans (h.last_head hlast rfl).1)) hne
  · rw [hsplit] at h sorted
    obtain rfl : b = c := Option.some.inj (hab.symm.trans h.linked.1)
    exact (List.pairwise_cons.mp (List.pairwise_append.mp sorted).2.1).1 b (by simp)

/-- What can be reached from the first node by following `next`. -/
def Reaches (next : α → Option α) : α → α → Prop :=
  Relation.ReflTransGen fun x y => next x = some y

theorem IsRing.next_mem (h : IsRing next prev xs) (ha : a ∈ xs) (hab : next a = some b) :
    b ∈ xs := by
  obtain ⟨l₁, l₂, rfl⟩ := List.append_of_mem ha
  rcases l₂ with _ | ⟨c, l₂⟩
  · rcases l₁ with _ | ⟨d, l₁⟩
    · have hl := h.last_head (a := a) (b := a) rfl rfl
      have : b = a := Option.some.inj (hab.symm.trans hl.1)
      simp [this]
    · have hl := h.last_head (getLast?_cons_concat d l₁ a) rfl
      have : b = d := Option.some.inj (hab.symm.trans hl.1)
      simp [this]
  · have : b = c := Option.some.inj (hab.symm.trans h.linked.1)
    simp [this]

theorem reaches_of_isChain (h : (a :: xs).IsChain (Linked next prev)) :
    ∀ x ∈ a :: xs, Reaches next a x := by
  induction xs generalizing a with
  | nil =>
    intro x hx
    have hxa : x = a := by simpa using hx
    exact hxa ▸ .refl
  | cons b xs ih =>
    intro x hx
    obtain ⟨hab, hrest⟩ := List.isChain_cons_cons.mp h
    rcases List.mem_cons.mp hx with rfl | hx
    · exact .refl
    · exact .head hab.1 (ih hrest x hx)

theorem IsRing.reaches_iff (h : IsRing next prev (a :: xs)) (x : α) :
    Reaches next a x ↔ x ∈ a :: xs := by
  constructor
  · intro hr
    induction hr with
    | refl => exact List.mem_cons_self
    | tail _ hstep ih => exact h.next_mem ih hstep
  · exact reaches_of_isChain h.links x

/-- The first node and the links tell which nodes are on a ring. -/
theorem IsRing.perm (h : IsRing next prev xs) (h' : IsRing next prev ys)
    (hhead : xs.head? = ys.head?) : xs.Perm ys := by
  refine (List.perm_ext_iff_of_nodup h.nodup h'.nodup).mpr fun x => ?_
  rcases xs with _ | ⟨a, xs⟩
  · rw [List.head?_eq_none_iff.mp hhead.symm]
  · rcases ys with _ | ⟨b, ys⟩
    · cases hhead
    · obtain rfl := Option.some.inj hhead
      rw [← h.reaches_iff, ← h'.reaches_iff]

theorem isChain_unique {r : α → α → Prop} (hr : ∀ a b c, r a b → r a c → b = c)
    (hx : xs.IsChain r) (hy : ys.IsChain r) (hhead : xs.head? = ys.head?)
    (hlen : xs.length = ys.length) : xs = ys := by
  induction xs generalizing ys with
  | nil => exact (List.length_eq_zero_iff.mp hlen.symm).symm
  | cons a xs ih =>
    rcases ys with _ | ⟨b, ys⟩
    · cases hlen
    obtain rfl := Option.some.inj hhead
    have hnext : xs.head? = ys.head? := by
      rcases xs with _ | ⟨c, xs⟩ <;> rcases ys with _ | ⟨d, ys⟩ <;> try cases hlen
      · rfl
      · exact congrArg some (hr a c d (List.isChain_cons_cons.mp hx).1
          (List.isChain_cons_cons.mp hy).1)
    exact congrArg (a :: ·) (ih hx.tail hy.tail hnext (Nat.succ.inj hlen))

/-- The first node and the links tell the list of a ring. -/
theorem IsRing.unique (h : IsRing next prev xs) (h' : IsRing next prev ys)
    (hhead : xs.head? = ys.head?) : xs = ys :=
  isChain_unique (fun _ _ _ hb hc => Option.some.inj (hb.1.symm.trans hc.1)) h.links h'.links hhead
    (h.perm h' hhead).length_eq

/-- From the first node once around, back to it. -/
theorem IsRing.cycle (h : IsRing next prev (a :: xs)) :
    (a :: xs ++ [a]).IsChain fun x y => next x = some y := by
  have hlinks : (a :: xs).IsChain fun x y => next x = some y := h.links.imp fun _ _ hl => hl.1
  refine hlinks.append (.singleton a) fun x hx y hy => ?_
  exact (h.closes x hx y (by simpa using hy)).1

theorem IsRing.cycle_back (h : IsRing next prev (a :: xs)) :
    (a :: xs ++ [a]).IsChain fun x y => prev y = some x := by
  have hlinks : (a :: xs).IsChain fun x y => prev y = some x := h.links.imp fun _ _ hl => hl.2
  refine hlinks.append (.singleton a) fun x hx y hy => ?_
  exact (h.closes x hx y (by simpa using hy)).2

theorem map_chain {f : α → Option α} (h : (a :: xs ++ [b]).IsChain fun x y => f x = some y) :
    (a :: xs).map f = (xs ++ [b]).map some := by
  induction xs generalizing a with
  | nil =>
    have hlast : f a = some b := by simpa using h
    simp [hlast]
  | cons c xs ih =>
    obtain ⟨hnext, hrest⟩ := List.isChain_cons_cons.mp h
    rw [List.map_cons, hnext, ih hrest]
    rfl

theorem map_chain_back {f : α → Option α} (h : (a :: xs ++ [b]).IsChain fun x y => f y = some x) :
    (xs ++ [b]).map f = (a :: xs).map some := by
  induction xs generalizing a with
  | nil =>
    have hlast : f b = some a := by simpa using h
    simp [hlast]
  | cons c xs ih =>
    obtain ⟨hnext, hrest⟩ := List.isChain_cons_cons.mp h
    rw [List.cons_append, List.map_cons, hnext, ih hrest]
    rfl

/-- The links lead to the ring turned by one node. -/
theorem IsRing.map_next (h : IsRing next prev xs) : xs.map next = (xs.rotate 1).map some := by
  cases xs with
  | nil => rfl
  | cons a xs =>
    rw [List.rotate_cons_succ, List.rotate_zero]
    exact map_chain h.cycle

theorem IsRing.map_prev (h : IsRing next prev xs) :
    xs.map prev = (xs.rotate (xs.length - 1)).map some := by
  cases xs with
  | nil => rfl
  | cons a xs =>
    have hturned : ((a :: xs).map prev).rotate 1 = (a :: xs).map some := by
      rw [← List.map_rotate, List.rotate_cons_succ, List.rotate_zero]
      exact map_chain_back h.cycle_back
    -- turning on until the first node is in front again
    have hround := congrArg (fun l => l.rotate xs.length) hturned
    rw [List.rotate_rotate, ← List.map_rotate, Nat.add_comm 1] at hround
    rw [List.length_cons, Nat.add_sub_cancel, List.map_rotate, ← hround, ← List.length_cons,
      List.rotate_length]

theorem IsRing.exists_next (h : IsRing next prev xs) (ha : a ∈ xs) :
    ∃ b ∈ xs, next a = some b := by
  have hmem := List.mem_map_of_mem (f := next) ha
  rw [h.map_next] at hmem
  obtain ⟨b, hb, hnext⟩ := List.mem_map.mp hmem
  exact ⟨b, List.mem_rotate.mp hb, hnext.symm⟩

theorem IsRing.exists_prev (h : IsRing next prev xs) (ha : a ∈ xs) : ∃ b, prev a = some b := by
  have hmem := List.mem_map_of_mem (f := prev) ha
  rw [h.map_prev] at hmem
  obtain ⟨b, -, hprev⟩ := List.mem_map.mp hmem
  exact ⟨b, hprev.symm⟩

section Around
variable {β ν : Type*}

/-- Each element of a circular list between the one before and the one behind it. -/
def around (xs : List β) : List (β × β × β) :=
  (xs.rotate (xs.length - 1)).zip (xs.zip (xs.rotate 1))

/-- What the nodes of a ring stand for, with what their links lead to. -/
theorem IsRing.around_eq {vs : List ν} {k : ν → α} {f : ν → β} {g : α → β} (d : β)
    (h : IsRing next prev (vs.map k)) (hg : ∀ v ∈ vs, g (k v) = f v) :
    around (vs.map f) =
      vs.map fun v => ((prev (k v)).elim d g, f v, (next (k v)).elim d g) := by
  have hf : vs.map f = (vs.map k).map g := by
    rw [List.map_map]
    exact List.map_congr_left fun v hv => (hg v hv).symm
  have helim (xs : List α) : (xs.map some).map (fun o => o.elim d g) = xs.map g := by
    rw [List.map_map]
    rfl
  have hnext : (vs.map f).rotate 1 = vs.map fun v => (next (k v)).elim d g := by
    have hlinks := congrArg (List.map fun o : Option α => o.elim d g) h.map_next
    rw [helim, List.map_rotate, ← hf, List.map_map, List.map_map] at hlinks
    exact hlinks.symm
  have hprev : (vs.map f).rotate ((vs.map f).length - 1) =
      vs.map fun v => (prev (k v)).elim d g := by
    have hlinks := congrArg (List.map fun o : Option α => o.elim d g) h.map_prev
    rw [helim, List.map_rotate, ← hf, List.map_map, List.map_map, List.length_map] at hlinks
    rw [List.length_map]
    exact hlinks.symm
  rw [around, hprev, hnext, List.zip_map', List.zip_map']

end Around

end Ring
