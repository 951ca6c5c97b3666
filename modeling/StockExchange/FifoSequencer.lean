import StockExchange.OrderServer
import Mathlib.Data.List.Pairwise

/-!
# The order in which requests reach the engine

The pending requests are sorted by receive time alone, and the sort need not be stable.
Times are in milliseconds, so the requests of one read have all the same.
-/

namespace StockExchange

namespace FifoSequencer

/-- What `std::sort` promises: a permutation without an element before a smaller one. -/
structure Sorts (sort : List TimedClientRequest → List TimedClientRequest) : Prop where
  perm : ∀ rs, (sort rs).Perm rs
  sorted : ∀ rs, (sort rs).Pairwise fun a b => ¬ b.recvTime < a.recvTime

/-- The calls of `add_request` since the last publication. -/
def addAll (f : FifoSequencer) (rs : List TimedClientRequest) : Except Fault FifoSequencer :=
  rs.foldlM (fun f r => f.addRequest r.recvTime r.request) f

/-- Whatever the sort does, the requests are written in the order they were added. -/
def KeepsArrival (f : FifoSequencer) (rs : List TimedClientRequest) : Prop :=
  ∀ sort, Sorts sort → ∃ f', f.addAll rs = .ok f' ∧
    f'.publishOrder sort = rs.map (·.request) ∧
    (f'.sequenceAndPublish sort).incomingRequests =
      (rs.map (·.request)).foldl .push f.incomingRequests ∧
    (f'.sequenceAndPublish sort).pendingClientRequests = []

/-- Different requests have different receive times. -/
def Apart (a b : TimedClientRequest) : Prop := a.recvTime = b.recvTime → a.request = b.request

instance : Std.Symm Apart := ⟨fun _ _ h htime => (h htime.symm).symm⟩

instance (a b : TimedClientRequest) : Decidable (Apart a b) := inferInstanceAs (Decidable (_ → _))

variable {f : FifoSequencer} {rs : List TimedClientRequest}

theorem addAll_eq (hroom : f.pendingClientRequests.length + rs.length ≤ maxPendingRequests) :
    ∃ f', f.addAll rs = .ok f' ∧ f'.pendingClientRequests = f.pendingClientRequests ++ rs ∧
      f'.incomingRequests = f.incomingRequests := by
  induction rs generalizing f with
  | nil => exact ⟨f, rfl, (List.append_nil _).symm, rfl⟩
  | cons r rs ih =>
    rw [List.length_cons] at hroom
    have hfree : ¬ maxPendingRequests ≤ f.pendingClientRequests.length := by omega
    rw [addAll, List.foldlM_cons, addRequest, dif_neg hfree, ok_bind]
    obtain ⟨f', hf', hpending, hqueue⟩ := ih
      (f := { f with
        pendingClientRequests := f.pendingClientRequests ++ [⟨r.recvTime, r.request⟩]
        pending_le := by
          rw [List.length_append, List.length_singleton]
          omega })
      (by
        dsimp only
        rw [List.length_append, List.length_singleton]
        omega)
    refine ⟨f', hf', ?_, hqueue⟩
    rw [hpending, List.append_assoc]
    rfl

theorem sort_eq {sort : List TimedClientRequest → List TimedClientRequest} (hsort : Sorts sort)
    (hordered : rs.Pairwise fun a b => a.recvTime ≤ b.recvTime) (hapart : rs.Pairwise Apart) :
    sort rs = rs := by
  have hall : ∀ ⦃a⦄, a ∈ rs → ∀ ⦃b⦄, b ∈ rs → Apart a b :=
    hapart.forall_of_forall fun _ _ _ => rfl
  have hsorted : (sort rs).Pairwise fun a b => a.recvTime ≤ b.recvTime :=
    (hsort.sorted rs).imp fun h => Int64.not_lt.mp h
  apply List.Perm.eq_of_pairwise _ hsorted hordered (hsort.perm rs)
  rintro ⟨t, r⟩ ⟨t', r'⟩ ha hb hab hba
  have htime : t = t' := Int64.le_antisymm hab hba
  have hrequest : r = r' := hall ((hsort.perm rs).mem_iff.mp ha) hb htime
  rw [htime, hrequest]

/-- Sorting by merging, but with one given result for one list. -/
def sortExcept (rs rs' : List TimedClientRequest) (l : List TimedClientRequest) :
    List TimedClientRequest :=
  if l = rs then rs' else l.mergeSort fun a b => a.recvTime ≤ b.recvTime

theorem sortExcept_sorts {rs rs' : List TimedClientRequest} (hperm : rs'.Perm rs)
    (hordered : rs'.Pairwise fun a b => a.recvTime ≤ b.recvTime) : Sorts (sortExcept rs rs') := by
  constructor
  · intro l
    by_cases hl : l = rs
    · rwa [sortExcept, if_pos hl, hl]
    · rw [sortExcept, if_neg hl]
      exact List.mergeSort_perm ..
  · intro l
    by_cases hl : l = rs
    · rw [sortExcept, if_pos hl]
      exact hordered.imp fun h => Int64.not_lt.mpr h
    · rw [sortExcept, if_neg hl]
      have hmerge : (l.mergeSort fun a b => decide (a.recvTime ≤ b.recvTime)).Pairwise
          fun a b => decide (a.recvTime ≤ b.recvTime) = true := by
        apply List.pairwise_mergeSort
        · intro a b c hab hbc
          exact decide_eq_true (Int64.le_trans (of_decide_eq_true hab) (of_decide_eq_true hbc))
        · intro a b
          rw [Bool.or_eq_true, decide_eq_true_eq, decide_eq_true_eq]
          exact Int64.le_total _ _
      exact hmerge.imp fun h => Int64.not_lt.mpr (of_decide_eq_true h)

/-- Two requests of one time, the first pair from the left. -/
theorem not_apart_split (h : ¬ rs.Pairwise Apart) : ∃ before a between b after,
    rs = before ++ a :: between ++ b :: after ∧ a.recvTime = b.recvTime ∧
      a.request ≠ b.request := by
  induction rs with
  | nil => exact absurd .nil h
  | cons r rs ih =>
    by_cases hrest : rs.Pairwise Apart
    · have hhead : ¬ ∀ b ∈ rs, Apart r b := fun hall => h (List.pairwise_cons.mpr ⟨hall, hrest⟩)
      obtain ⟨b, hb⟩ := not_forall.mp hhead
      obtain ⟨hmem, hnot⟩ := Classical.not_imp.mp hb
      obtain ⟨htime, hrequest⟩ := Classical.not_imp.mp hnot
      obtain ⟨between, after, rfl⟩ := List.append_of_mem hmem
      exact ⟨[], r, between, b, after, rfl, htime, hrequest⟩
    · obtain ⟨before, a, between, b, after, rfl, htime, hrequest⟩ := ih hrest
      exact ⟨r :: before, a, between, b, after, rfl, htime, hrequest⟩

theorem perm_swap {α : Type} (before between after : List α) (a b : α) :
    (before ++ a :: between ++ b :: after).Perm (before ++ b :: between ++ a :: after) := by
  have hfront : ∀ x y : α, (before ++ x :: between ++ y :: after).Perm
      (x :: y :: (before ++ between ++ after)) := by
    intro x y
    calc (before ++ x :: between ++ y :: after).Perm
          (y :: (before ++ x :: between ++ after)) := List.perm_middle
      List.Perm _ (y :: x :: (before ++ between ++ after)) := by
        apply List.Perm.cons
        rw [List.append_assoc, List.append_assoc, List.cons_append]
        exact List.perm_middle
      List.Perm _ (x :: y :: (before ++ between ++ after)) := List.Perm.swap ..
  exact (hfront a b).trans ((List.Perm.swap ..).trans (hfront b a).symm)

/-- Arrival order is kept by every sort exactly when different requests are never received
at the same time. -/
theorem keepsArrival_iff_apart (hempty : f.pendingClientRequests = [])
    (hroom : rs.length ≤ maxPendingRequests)
    (hordered : rs.Pairwise fun a b => a.recvTime ≤ b.recvTime) :
    f.KeepsArrival rs ↔ rs.Pairwise Apart := by
  obtain ⟨f', hf', hpending, hqueue⟩ := @addAll_eq f rs (by rw [hempty, List.length_nil]; omega)
  rw [hempty, List.nil_append] at hpending
  constructor
  · intro hkeeps
    by_contra hnot
    obtain ⟨before, a, between, b, after, rfl, htime, hrequest⟩ := not_apart_split hnot
    have hswapped : (before ++ b :: between ++ a :: after).Pairwise
        fun a b => a.recvTime ≤ b.recvTime := by
      rw [← List.pairwise_map (f := TimedClientRequest.recvTime) (R := (· ≤ ·))] at hordered ⊢
      simpa only [List.map_append, List.map_cons, htime] using hordered
    have hperm : (before ++ b :: between ++ a :: after).Perm
        (before ++ a :: between ++ b :: after) :=
      perm_swap before between after b a
    obtain ⟨f'', hf'', horder, -⟩ := hkeeps _ (sortExcept_sorts hperm hswapped)
    cases hf'.symm.trans hf''
    rw [publishOrder, hpending, sortExcept, if_pos rfl] at horder
    simp only [List.map_append, List.map_cons, List.append_assoc, List.cons_append] at horder
    exact hrequest (List.cons.inj (List.append_cancel_left horder)).1.symm
  · intro hapart sort hsort
    have horder : f'.publishOrder sort = rs.map (·.request) := by
      rw [publishOrder, hpending, sort_eq hsort hordered hapart]
    refine ⟨f', hf', horder, ?_, pending_sequenceAndPublish sort f'⟩
    rw [sequenceAndPublish]
    by_cases hnone : f'.pendingClientRequests = []
    · rw [if_pos hnone, hqueue, ← hpending, hnone]
      rfl
    · rw [if_neg hnone, ← hqueue, ← horder]

/-- The first request comes twice in one millisecond, the other later. -/
theorem keepsArrival_iff_apart_sample :
    (create (.create .default 8)).KeepsArrival [⟨5, ⟨.cancel, 0, 0, 1, .buy, 10, 5⟩⟩,
      ⟨5, ⟨.cancel, 0, 0, 1, .buy, 10, 5⟩⟩, ⟨6, ⟨.new, 1, 0, 1, .buy, 10, 5⟩⟩] :=
  (keepsArrival_iff_apart rfl (by decide) (by decide)).mpr (by decide)

/-- Orders 1 to 17 of client 0, received in the same millisecond. -/
def oneRead : List TimedClientRequest :=
  (List.range' 1 17).map fun k => ⟨5, ⟨.new, 0, 0, UInt64.ofNat k, .buy, 10, 1⟩⟩

/-- The same as introsort leaves them. Up to 16 elements are inserted one by one; 17 are partitioned
around the middle one, which exchanges equal elements from both ends. -/
def introsorted : List TimedClientRequest :=
  [9, 17, 16, 15, 14, 13, 12, 11, 10, 1, 8, 7, 6, 5, 4, 3, 2].map fun k =>
    ⟨5, ⟨.new, 0, 0, k, .buy, 10, 1⟩⟩

/-- Order 9 is published first and order 2 last. -/
theorem exchanged_requests : ∃ sort f, Sorts sort ∧
    (create (.create .default 32)).addAll oneRead = .ok f ∧
    f.publishOrder sort = introsorted.map (·.request) ∧
    ¬ (create (.create .default 32)).KeepsArrival oneRead := by
  have hsort : Sorts (sortExcept oneRead introsorted) :=
    sortExcept_sorts (by decide +kernel) (by decide +kernel)
  obtain ⟨f, hf, hpending, -⟩ := @addAll_eq (create (.create .default 32)) oneRead (by decide)
  have horder : f.publishOrder (sortExcept oneRead introsorted) = introsorted.map (·.request) := by
    rw [publishOrder, hpending]
    exact congrArg (List.map _) (if_pos rfl)
  refine ⟨_, f, hsort, hf, horder, fun hkeeps => ?_⟩
  obtain ⟨f', hf', harrival, -⟩ := hkeeps _ hsort
  obtain rfl := Except.ok.inj (hf.symm.trans hf')
  rw [horder] at harrival
  exact absurd harrival (by decide +kernel)

end FifoSequencer

end StockExchange
