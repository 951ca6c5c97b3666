import StockExchange.TcpConnection
import Mathlib.Data.List.Induction

/-!
# Requests and segments

A client's bytes arrive cut into reads. Every read goes to the start of the buffer, over
what the reads before have left there, so only cuts between requests are harmless.
-/

namespace StockExchange

open Bytes

namespace TcpConnection

section Record
variable {ρ : Type}

/-- Noting down what is handed over. -/
def record (log : List ρ) (r : ρ) : Except Fault (List ρ) := .ok (log ++ [r])

theorem foldlM_record (rs log : List ρ) : rs.foldlM record log = .ok (log ++ rs) := by
  induction rs generalizing log with
  | nil => rw [List.append_nil]; rfl
  | cons r rs ih =>
    rw [List.foldlM_cons, record, ok_bind, ih, List.append_assoc]
    rfl

end Record

variable {host : ByteOrder}

/-- The reads of a connection from its start, and the requests they hand over. -/
def receiveAll (host : ByteOrder) (chunks : List (List UInt8)) :
    Except Fault (TcpConnection × List ClientRequestExternal) :=
  chunks.foldlM (fun s bytes => s.1.onRead host record s.2 bytes) (create, [])

/-- After every read the requests handed over are those of the stream so far, the valid
bytes are the incomplete one behind them, and the next read ends within the buffer. -/
def Framed (host : ByteOrder) (chunks : List (List UInt8)) : Prop :=
  ∀ seen, seen <+: chunks → ∃ c,
    receiveAll host seen = .ok (c, requests host seen.flatten) ∧
    c.received = leftover sizeofClientRequest seen.flatten ∧
    c.nextRcvValidIndex ≤ tcpBufferSize ∧
    ∀ bytes, seen ++ [bytes] <+: chunks → c.nextRcvValidIndex + bytes.length ≤ tcpBufferSize

theorem receiveAll_concat (seen : List (List UInt8)) (bytes : List UInt8) :
    receiveAll host (seen ++ [bytes]) =
      (receiveAll host seen >>= fun s => s.1.onRead host record s.2 bytes) := by
  rw [receiveAll, List.foldlM_append]
  cases h : seen.foldlM (fun s bytes => s.1.onRead host record s.2 bytes) (create, []) with
  | error f => rw [receiveAll, h]; rfl
  | ok s =>
    rw [receiveAll, h, ok_bind, ok_bind, List.foldlM_cons]
    cases s.1.onRead host record s.2 bytes <;> rfl

/-- The bytes are determined by the requests and what is left over. -/
theorem serialize_requests (bytes : List UInt8) :
    (requests host bytes).flatMap (serializeClientRequest host) ++
      leftover sizeofClientRequest bytes = bytes := by
  by_cases hle : sizeofClientRequest ≤ bytes.length
  · have hfield : (field bytes 0 sizeofClientRequest).length = sizeofClientRequest :=
      length_field (by omega)
    have hshort : (bytes.drop sizeofClientRequest).length < bytes.length := by
      have := sizeofClientRequest_pos
      rw [List.length_drop]
      omega
    rw [requests, blocks_cons sizeofClientRequest_pos hle, List.map_cons, List.flatMap_cons,
      serialize_deserializeClientRequest host hfield, List.append_assoc,
      ← leftover_drop sizeofClientRequest_pos hle]
    have ih := serialize_requests (bytes.drop sizeofClientRequest)
    rw [requests] at ih
    rw [ih, field, List.drop_zero, List.take_append_drop]
  · have hlt : bytes.length < sizeofClientRequest := by omega
    rw [requests, blocks_of_lt hlt, leftover_of_lt hlt]
    rfl
termination_by bytes.length
decreasing_by exact hshort

theorem dvd_length_flatten {k : Nat} {bss : List (List UInt8)} (h : ∀ bs ∈ bss, k ∣ bs.length) :
    k ∣ bss.flatten.length := by
  induction bss with
  | nil => exact Nat.dvd_zero k
  | cons bs bss ih =>
    rw [List.flatten_cons, List.length_append]
    exact Nat.dvd_add (h _ List.mem_cons_self) (ih fun b hb => h b (List.mem_cons_of_mem _ hb))

theorem mem_dropLast_mono {α : Type} {l l' : List α} (h : l <+: l') {a : α}
    (ha : a ∈ l.dropLast) : a ∈ l'.dropLast := by
  obtain ⟨t, rfl⟩ := h
  by_cases hnil : t = []
  · rwa [hnil, List.append_nil]
  · rw [List.dropLast_append_of_ne_nil hnil]
    exact List.mem_append_left _ (List.dropLast_subset _ ha)

/-- A read into a buffer without valid bytes. -/
theorem onRead_empty {c : TcpConnection} (hempty : c.nextRcvValidIndex = 0) {bytes : List UInt8}
    (hlen : bytes.length ≤ tcpBufferSize) (log : List ClientRequestExternal) : ∃ c',
    c.onRead host record log bytes = .ok (c', log ++ requests host bytes) ∧
    c'.received = leftover sizeofClientRequest bytes := by
  have hindex : ((c.receive bytes).arrive bytes.length).nextRcvValidIndex = bytes.length := by
    show c.nextRcvValidIndex + bytes.length = bytes.length
    rw [hempty, Nat.zero_add]
  have hreceived : ((c.receive bytes).arrive bytes.length).received = bytes := by
    rw [TcpConnection.received, hindex]
    exact readCells_writeCells c.inboundData 0 bytes
  obtain ⟨c', hread, hleft⟩ := @readData_eq _ host record ((c.receive bytes).arrive bytes.length)
    (hindex.le.trans hlen) log
  rw [hreceived] at hread hleft
  rw [foldlM_record] at hread
  exact ⟨c', hread, hleft⟩

/-- Reads that end between two requests, up to the last one. -/
theorem receiveAll_aligned {chunks : List (List UInt8)}
    (haligned : ∀ bytes ∈ chunks.dropLast, sizeofClientRequest ∣ bytes.length)
    (hlen : ∀ bytes ∈ chunks, bytes.length ≤ tcpBufferSize) : ∃ c,
    receiveAll host chunks = .ok (c, requests host chunks.flatten) ∧
    c.received = leftover sizeofClientRequest chunks.flatten := by
  induction chunks using List.reverseRecOn with
  | nil => exact ⟨create, rfl, rfl⟩
  | append_singleton seen bytes ih =>
    rw [List.dropLast_concat] at haligned
    obtain ⟨c, hc, hleft⟩ := ih (fun b hb => haligned b (List.dropLast_subset _ hb))
      (fun b hb => hlen b (List.mem_append_left _ hb))
    have hdvd := dvd_length_flatten haligned
    rw [leftover_of_dvd hdvd] at hleft
    have hempty : c.nextRcvValidIndex = 0 := by rw [← length_received, hleft]; rfl
    obtain ⟨c', hread, hleft'⟩ := @onRead_empty host c hempty bytes
      (hlen _ (List.mem_append_right _ (List.mem_singleton_self _)))
      (requests host seen.flatten)
    have hflat : (seen ++ [bytes]).flatten = seen.flatten ++ bytes := by simp
    refine ⟨c', ?_, ?_⟩
    · rw [receiveAll_concat, hc, ok_bind, hread, hflat, requests_append hdvd]
    · rw [hflat, leftover_append sizeofClientRequest_pos hdvd, hleft']

theorem framed_of_aligned {chunks : List (List UInt8)}
    (haligned : ∀ bytes ∈ chunks.dropLast, sizeofClientRequest ∣ bytes.length)
    (hlen : ∀ bytes ∈ chunks, bytes.length ≤ tcpBufferSize) : Framed host chunks := by
  intro seen hseen
  obtain ⟨c, hc, hleft⟩ := @receiveAll_aligned host seen
    (fun b hb => haligned b (mem_dropLast_mono hseen hb))
    (fun b hb => hlen b (hseen.subset hb))
  have hindex : c.nextRcvValidIndex < sizeofClientRequest := by
    rw [← length_received, hleft, length_leftover]
    exact Nat.mod_lt _ sizeofClientRequest_pos
  have hsize : sizeofClientRequest ≤ tcpBufferSize := by decide
  refine ⟨c, hc, hleft, by omega, fun bytes hnext => ?_⟩
  have hdvd : sizeofClientRequest ∣ seen.flatten.length :=
    dvd_length_flatten fun b hb =>
      haligned b (mem_dropLast_mono hnext (by rwa [List.dropLast_concat]))
  have hempty : c.nextRcvValidIndex = 0 := by
    rw [← length_received, hleft, leftover_of_dvd hdvd]
    rfl
  rw [hempty, Nat.zero_add]
  exact hlen bytes (hnext.subset (List.mem_append_right _ (List.mem_singleton_self _)))

/-- Framing means that at every read the buffer holds the incomplete request followed by the
new bytes, although these were put at its start. -/
theorem received_of_framed {chunks seen : List (List UInt8)} {bytes : List UInt8}
    (h : Framed host chunks) (hseen : seen ++ [bytes] <+: chunks) : ∃ c : TcpConnection,
    c.received = leftover sizeofClientRequest seen.flatten ∧
    ((c.receive bytes).arrive bytes.length).received =
      leftover sizeofClientRequest seen.flatten ++ bytes := by
  obtain ⟨c, hc, hleft, _, hroom⟩ := h seen ((List.prefix_append _ _).trans hseen)
  obtain ⟨c', hc', hleft', _⟩ := h _ hseen
  refine ⟨c, hleft, ?_⟩
  obtain ⟨c₁, hread, hleft₁⟩ := @readData_eq _ host record ((c.receive bytes).arrive bytes.length)
    (hroom bytes hseen) (requests host seen.flatten)
  rw [receiveAll_concat, hc, ok_bind, onRead, hread, foldlM_record, ok_bind] at hc'
  obtain ⟨rfl, hrequests⟩ := Prod.mk.inj (Except.ok.inj hc')
  have hflat : (seen ++ [bytes]).flatten = seen.flatten ++ bytes := by simp
  rw [hflat] at hrequests hleft'
  have hseen := @serialize_requests host seen.flatten
  have hall := @serialize_requests host (seen.flatten ++ bytes)
  have hbuffer := @serialize_requests host ((c.receive bytes).arrive bytes.length).received
  rw [← hrequests, List.flatMap_append, List.append_assoc, ← hleft', hleft₁, hbuffer] at hall
  have hsplit := congrArg (· ++ bytes) hseen
  simp only [List.append_assoc] at hsplit
  exact List.append_cancel_left (hall.trans hsplit.symm)

/-- A cut of which only the last read may end inside a request. -/
def Aligned (ns : List Nat) : Prop := ∀ n ∈ ns.dropLast, sizeofClientRequest ∣ n

instance (ns : List Nat) : Decidable (Aligned ns) :=
  inferInstanceAs (Decidable (∀ n ∈ _, _ ∣ n))

/-- If the reads before one add up to whole requests wherever there is one, so does each. -/
theorem aligned_of_sums {ns : List Nat}
    (h : ∀ pre n, pre ++ [n] <+: ns → sizeofClientRequest ∣ pre.sum) : Aligned ns := by
  intro n hn
  have hne : ns ≠ [] := by
    rintro rfl
    exact absurd hn List.not_mem_nil
  obtain ⟨pre, post, hsplit⟩ := List.append_of_mem hn
  have hlast : post ++ [ns.getLast hne] ≠ [] := by simp
  obtain ⟨m, post', hpost⟩ := List.exists_cons_of_ne_nil hlast
  have hns : ns = pre ++ [n] ++ [m] ++ post' := by
    rw [← List.dropLast_append_getLast hne, hsplit, List.append_assoc, List.cons_append]
    rw [hpost]
    simp
  have hbefore := h pre n ⟨m :: post', by rw [hns]; simp⟩
  have hafter := h (pre ++ [n]) m ⟨post', hns.symm⟩
  rw [List.sum_append, List.sum_singleton] at hafter
  exact (Nat.dvd_add_right hbefore).mp hafter

theorem leftover_replicate (k p : Nat) (b : UInt8) :
    leftover k (List.replicate p b) = List.replicate (p % k) b := by
  have hdiv := Nat.div_add_mod p k
  rw [leftover, List.drop_replicate, List.length_replicate]
  congr 1
  omega

theorem head_received {c : TcpConnection} (h : 0 < c.nextRcvValidIndex) :
    c.received.head? = some (c.inboundData 0) := by
  rw [received, readCells, List.head?_map, List.head?_range, if_neg h.ne']
  rfl

theorem flatten_replicates (ns : List Nat) (b : UInt8) :
    (ns.map (List.replicate · b)).flatten = List.replicate ns.sum b := by
  induction ns with
  | nil => rfl
  | cons n ns ih =>
    rw [List.map_cons, List.flatten_cons, ih, List.sum_cons, List.replicate_append_replicate]

/-- Bytes of one kind up to some read and of another from then on are told apart unless the
first ones are whole requests. -/
theorem dvd_of_framed {ns : List Nat} (hpos : ∀ n ∈ ns, 1 ≤ n)
    (h : ∀ chunks, chunks.map List.length = ns → Framed host chunks) (pre : List Nat) (n : Nat)
    (hpre : pre ++ [n] <+: ns) : sizeofClientRequest ∣ pre.sum := by
  obtain ⟨post, hns⟩ := hpre
  have hn : 1 ≤ n := hpos n (by rw [← hns]; simp)
  have hlengths : ∀ (ks : List Nat) (b : UInt8),
      (ks.map (List.replicate · b)).map List.length = ks := by
    intro ks b
    rw [List.map_map]
    simp [Function.comp_def]
  have hframed := h (pre.map (List.replicate · 1) ++ [List.replicate n 2] ++
    post.map (List.replicate · 2)) (by
      rw [List.map_append, List.map_append, hlengths, hlengths, ← hns]
      simp)
  obtain ⟨c, _, hbuffer⟩ := received_of_framed hframed (List.prefix_append _ _)
  rw [flatten_replicates, leftover_replicate] at hbuffer
  by_contra hdvd
  have hrest : 0 < pre.sum % sizeofClientRequest :=
    Nat.pos_of_ne_zero fun hzero => hdvd (Nat.dvd_of_mod_eq_zero hzero)
  have hlen : 0 < (List.replicate n (2 : UInt8)).length := by
    rw [List.length_replicate]
    exact hn
  have hwritten : writeCells c.inboundData 0 (List.replicate n 2) (0 + 0) =
      (List.replicate n (2 : UInt8))[0] := writeCells_at c.inboundData hlen
  have hcell : (c.receive (List.replicate n 2)).inboundData 0 = 2 := by
    rwa [List.getElem_replicate] at hwritten
  have hhead := congrArg List.head? hbuffer
  rw [head_received (Nat.add_pos_right _ hlen)] at hhead
  obtain ⟨k, hk⟩ := Nat.exists_eq_succ_of_ne_zero hrest.ne'
  rw [hk, List.replicate_succ, List.cons_append, List.head?_cons] at hhead
  have hone : (c.receive (List.replicate n 2)).inboundData 0 = 1 := Option.some.inj hhead
  rw [hcell] at hone
  exact absurd hone (by decide)

end TcpConnection

end StockExchange
