import StockExchange.OrderServer

/-!
# What a client's bytes can touch

A record names a client. The table of connections is read at that id without a check, and a
rejected record is answered to that id, whoever sent it.
-/

namespace StockExchange

open Bytes

namespace LockFreeQueue
variable {α : Type} {q : LockFreeQueue α}

theorem push_all_index (xs : List α) :
    (xs.foldl push q).size = q.size ∧
      (xs.foldl push q).numElements = q.numElements + xs.length := by
  induction xs generalizing q with
  | nil => exact ⟨rfl, rfl⟩
  | cons x xs ih =>
    obtain ⟨hsize, hnum⟩ := @ih (q.push x)
    refine ⟨hsize, ?_⟩
    rw [List.foldl_cons, hnum, List.length_cons]
    show q.numElements + 1 + xs.length = q.numElements + (xs.length + 1)
    omega

/-- The same number of elements moves the write index to the same cell. -/
theorem push_all_writeIndex (a b : LockFreeQueue α) (hsize : a.size = b.size)
    (hindex : a.nextWriteIndex = b.nextWriteIndex) {xs ys : List α}
    (hlen : xs.length = ys.length) :
    (xs.foldl push a).nextWriteIndex = (ys.foldl push b).nextWriteIndex := by
  induction xs generalizing a b ys with
  | nil =>
    cases ys with
    | nil => exact hindex
    | cons y ys => cases hlen
  | cons x xs ih =>
    cases ys with
    | nil => cases hlen
    | cons y ys =>
      refine ih (a.push x) (b.push y) hsize ?_ (Nat.succ.inj hlen)
      show (a.nextWriteIndex + 1) % a.size = (b.nextWriteIndex + 1) % b.size
      rw [hindex, hsize]

/-- The last element pushed can be told from the ring. -/
theorem last_of_push_all {xs ys : List α} {x y : α}
    (h : (xs ++ [x]).foldl push q = (ys ++ [y]).foldl push q) : x = y := by
  have hlen : xs.length = ys.length := by
    have hnum := congrArg numElements h
    rw [(push_all_index _).2, (push_all_index _).2, List.length_append, List.length_append,
      List.length_singleton, List.length_singleton] at hnum
    omega
  have hcell := push_all_writeIndex q q rfl rfl hlen
  rw [List.foldl_append, List.foldl_append] at h
  have hdata := congrFun (congrArg data h) (xs.foldl push q).nextWriteIndex
  have hx : (push (xs.foldl push q) x).data (xs.foldl push q).nextWriteIndex = x :=
    Function.update_self ..
  have hy : (push (ys.foldl push q) y).data (ys.foldl push q).nextWriteIndex = y :=
    Function.update_self ..
  rw [← hx, ← hy, ← hcell]
  exact hdata

end LockFreeQueue

/-- A connection of whose bytes the first `n` are valid. -/
def TcpConnection.validUpTo (c : TcpConnection) (n : Nat) : TcpConnection :=
  { c with nextRcvValidIndex := n }

namespace OrderServer

/-- The pending requests of a client. -/
def pendingOf (s : OrderServer) (d : ClientId) : List TimedClientRequest :=
  s.fifoSequencer.pendingClientRequests.filter (·.request.clientId = d)

/-- Only the client with this id and connection is affected. -/
structure Isolated (id conn : Nat) (s s' : OrderServer) : Prop where
  incoming : ∀ d, d ≠ id → s'.clientNextIncomingSeqNum d = s.clientNextIncomingSeqNum d
  pending : ∀ d : ClientId, d.toNat ≠ id → s'.pendingOf d = s.pendingOf d
  responses : ∃ sent : List ClientResponseInternal,
    s'.serverResponses = sent.foldl .push s.serverResponses ∧
    ∀ r ∈ sent, s'.responseConnection r = .ok conn

/-- The server when the first `n` bytes of what a connection has received are there. -/
def received (s : OrderServer) (conn n : Nat) : OrderServer :=
  { s with
    connection := Function.update s.connection conn ((s.connection conn).validUpTo n) }

/-- Processing what connection `conn` of client `id` has received, up to any of its bytes,
does not look outside the tables and affects no other client. -/
def Harmless (host : ByteOrder) (s : OrderServer) (id conn : Nat) (userTime : Int64) : Prop :=
  ∀ n ≤ (s.connection conn).nextRcvValidIndex,
    (s.received conn n).readData host conn userTime ≠ .error .badAccess ∧
    OnReturn ((s.received conn n).readData host conn userTime) (s.Isolated id conn)

/-- How many requests carry the sequence number that is expected when they are read. -/
def inTurn : ClientId → List ClientRequestExternal → Nat
  | _, [] => 0
  | next, r :: rs =>
    if r.sequenceNumber = next.toUInt64 then inTurn (next + 1) rs + 1 else inTurn next rs

/-- The pending table has room for the requests in turn. -/
def Room (s : OrderServer) (id : Nat) (rs : List ClientRequestExternal) : Prop :=
  s.fifoSequencer.pendingClientRequests.length + inTurn (s.clientNextIncomingSeqNum id) rs ≤
    maxPendingRequests

theorem room_nil (s : OrderServer) (id : Nat) : s.Room id [] := s.fifoSequencer.pending_le

/-- Every record that is read before the pending table overflows names the client. -/
def NamesOnly (host : ByteOrder) (s : OrderServer) (id conn : Nat) : Prop :=
  ∀ seen r rest, TcpConnection.requests host (s.connection conn).received = seen ++ r :: rest →
    s.Room id seen → r.request.clientId.toNat = id

section Requests
variable {id conn : Nat} {userTime : Int64} {s s' s'' : OrderServer} {r : ClientRequestExternal}
  {rs seen rest : List ClientRequestExternal}

theorem Isolated.refl (id conn : Nat) (s : OrderServer) : s.Isolated id conn s :=
  ⟨fun _ _ => rfl, fun _ _ => rfl, [], rfl, nofun⟩

theorem Isolated.trans (h : s.Isolated id conn s') (h' : s'.Isolated id conn s'')
    (hsame : s''.clientConnections = s'.clientConnections) : s.Isolated id conn s'' := by
  obtain ⟨sent, hsent, hto⟩ := h.responses
  obtain ⟨sent', hsent', hto'⟩ := h'.responses
  refine ⟨fun d hd => (h'.incoming d hd).trans (h.incoming d hd),
    fun d hd => (h'.pending d hd).trans (h.pending d hd), sent ++ sent', ?_, ?_⟩
  · rw [hsent', hsent, List.foldl_append]
  · intro r hr
    rcases List.mem_append.mp hr with hr | hr
    · rw [responseConnection, hsame]
      exact hto r hr
    · exact hto' r hr

/-- A rejected request of the client itself. -/
theorem sendInvalidResponse_isolated (hid : id < maxNumClients)
    (hconn : s.clientConnections.owner id = some conn) {clientId : ClientId}
    (hclient : clientId.toNat = id) : s.Isolated id conn (s.sendInvalidResponse clientId) := by
  refine ⟨fun _ _ => rfl, fun _ _ => rfl, [.ofServer .invalidRequest clientId], rfl, ?_⟩
  intro r hr
  rw [List.mem_singleton.mp hr]
  show (if clientId.toNat < maxNumClients then
    deref (s.clientConnections.owner clientId.toNat) else _) = _
  rw [hclient, if_pos hid, hconn]
  rfl

/-- A request in turn is pending afterwards and moves the expected number on. -/
theorem readRequest_turn (hid : id < maxNumClients)
    (hconn : s.clientConnections.owner id = some conn) (hclient : r.request.clientId.toNat = id)
    (hturn : r.sequenceNumber = (s.clientNextIncomingSeqNum id).toUInt64)
    (hroom : s.fifoSequencer.pendingClientRequests.length < maxPendingRequests) : ∃ s',
    readRequest conn userTime s r = .ok s' ∧ s.Isolated id conn s' ∧
    s'.clientConnections = s.clientConnections ∧
    s'.fifoSequencer.pendingClientRequests =
      s.fifoSequencer.pendingClientRequests ++ [⟨userTime, r.request⟩] ∧
    s'.clientNextIncomingSeqNum id = s.clientNextIncomingSeqNum id + 1 := by
  rw [readRequest]
  simp only [hclient, if_pos hid, hconn, ne_eq, not_true_eq_false, if_false, hturn,
    FifoSequencer.addRequest, dif_neg (Nat.not_le.mpr hroom), ok_bind]
  refine ⟨_, rfl, ⟨fun d hd => Function.update_of_ne hd .., fun d hd => ?_, [], rfl,
    fun _ h => absurd h List.not_mem_nil⟩, rfl, rfl, Function.update_self ..⟩
  have hother : ¬ r.request.clientId = d := by
    rintro rfl
    exact hd hclient
  simp only [pendingOf, List.filter_append, List.filter_singleton, hother, decide_false,
    cond_false, List.append_nil]

theorem readRequest_fatal (hid : id < maxNumClients)
    (hconn : s.clientConnections.owner id = some conn) (hclient : r.request.clientId.toNat = id)
    (hturn : r.sequenceNumber = (s.clientNextIncomingSeqNum id).toUInt64)
    (hfull : maxPendingRequests ≤ s.fifoSequencer.pendingClientRequests.length) :
    readRequest conn userTime s r = .error .fatal := by
  rw [readRequest]
  simp only [hclient, if_pos hid, hconn, ne_eq, not_true_eq_false, if_false, hturn,
    FifoSequencer.addRequest, dif_pos hfull]
  rfl

theorem readRequest_outOfTurn (hid : id < maxNumClients)
    (hconn : s.clientConnections.owner id = some conn) (hclient : r.request.clientId.toNat = id)
    (hturn : ¬ r.sequenceNumber = (s.clientNextIncomingSeqNum id).toUInt64) :
    readRequest conn userTime s r = .ok (s.sendInvalidResponse r.request.clientId) := by
  rw [readRequest]
  simp only [hclient, if_pos hid, hconn, ne_eq, not_true_eq_false, if_false, hturn,
    not_false_eq_true, if_true]

/-- A record that names another client is answered to that client, if there can be one. -/
theorem readRequest_foreign (hconn : s.clientConnections.owner id = some conn)
    (hclient : r.request.clientId.toNat ≠ id) :
    readRequest conn userTime s r =
      if r.request.clientId.toNat < maxNumClients then
        .ok (s.sendInvalidResponse r.request.clientId)
      else .error .badAccess := by
  have howner : s.clientConnections.owner r.request.clientId.toNat ≠ some conn := fun h =>
    hclient (s.clientConnections.owner_unique _ _ _ h hconn)
  rw [readRequest]
  simp only [howner, ne_eq, not_false_eq_true, if_true]

/-- Requests of the client itself are processed, or the pending table overflows. -/
theorem readRequests_own (hid : id < maxNumClients)
    (hown : ∀ r ∈ rs, r.request.clientId.toNat = id)
    (hconn : s.clientConnections.owner id = some conn) :
    (s.Room id rs → ∃ s', rs.foldlM (readRequest conn userTime) s = .ok s' ∧
      s.Isolated id conn s' ∧ s'.clientConnections = s.clientConnections) ∧
    (¬ s.Room id rs → rs.foldlM (readRequest conn userTime) s = .error .fatal) := by
  induction rs generalizing s with
  | nil =>
    exact ⟨fun _ => ⟨s, rfl, .refl id conn s, rfl⟩,
      fun hroom => absurd (room_nil s id) hroom⟩
  | cons r rs ih =>
    have hclient := hown r List.mem_cons_self
    have hrest : ∀ r ∈ rs, r.request.clientId.toNat = id :=
      fun r' hr' => hown r' (List.mem_cons_of_mem _ hr')
    rw [List.foldlM_cons]
    by_cases hturn : r.sequenceNumber = (s.clientNextIncomingSeqNum id).toUInt64
    · by_cases hfull : maxPendingRequests ≤ s.fifoSequencer.pendingClientRequests.length
      · have hnone : ¬ s.Room id (r :: rs) := by
          rw [Room, inTurn, if_pos hturn]
          omega
        rw [readRequest_fatal hid hconn hclient hturn hfull]
        exact ⟨fun hroom => absurd hroom hnone, fun _ => rfl⟩
      · obtain ⟨s₁, hread, hiso, hsame, hpending, hnext⟩ :=
          @readRequest_turn _ _ userTime _ _ hid hconn hclient hturn (Nat.not_le.mp hfull)
        have hroom : s.Room id (r :: rs) ↔ s₁.Room id rs := by
          rw [Room, Room, inTurn, if_pos hturn, hpending, hnext, List.length_append,
            List.length_singleton]
          omega
        obtain ⟨hok, hfatal⟩ := ih hrest (s := s₁) (hsame ▸ hconn)
        rw [hread, ok_bind, hroom]
        refine ⟨fun hr => ?_, hfatal⟩
        obtain ⟨s₂, hrun, hiso', hsame'⟩ := hok hr
        exact ⟨s₂, hrun, hiso.trans hiso' hsame', hsame'.trans hsame⟩
    · have hroom : s.Room id (r :: rs) ↔
          (s.sendInvalidResponse r.request.clientId).Room id rs := by
        rw [Room, inTurn, if_neg hturn]
        exact Iff.rfl
      obtain ⟨hok, hfatal⟩ := ih hrest (s := s.sendInvalidResponse r.request.clientId) hconn
      rw [readRequest_outOfTurn hid hconn hclient hturn, ok_bind, hroom]
      refine ⟨fun hr => ?_, hfatal⟩
      obtain ⟨s₂, hrun, hiso', hsame'⟩ := hok hr
      exact ⟨s₂, hrun, (sendInvalidResponse_isolated hid hconn hclient).trans hiso' hsame',
        hsame'⟩

theorem inTurn_le_append (next : ClientId) (seen rest : List ClientRequestExternal) :
    inTurn next seen ≤ inTurn next (seen ++ rest) := by
  induction seen generalizing next with
  | nil => exact Nat.zero_le _
  | cons r seen ih =>
    rw [List.cons_append, inTurn, inTurn]
    split
    · exact Nat.succ_le_succ (ih _)
    · exact ih _

theorem Room.left (h : s.Room id (seen ++ rest)) : s.Room id seen :=
  (Nat.add_le_add_left (inTurn_le_append _ _ _) _).trans h

/-- Behind records of the client itself, one that names another client does harm. -/
theorem not_isolated_foreign (hid : id < maxNumClients)
    (hown : ∀ r ∈ seen, r.request.clientId.toNat = id)
    (hconn : s.clientConnections.owner id = some conn) (hroom : s.Room id seen)
    (hclient : r.request.clientId.toNat ≠ id) :
    (seen ++ [r]).foldlM (readRequest conn userTime) s = .error .badAccess ∨
    ∃ s', (seen ++ [r]).foldlM (readRequest conn userTime) s = .ok s' ∧
      ¬ ∃ sent : List ClientResponseInternal,
        s'.serverResponses = sent.foldl .push s.serverResponses ∧
        ∀ r ∈ sent, s'.responseConnection r = .ok conn := by
  obtain ⟨s₁, hrun, hiso, hsame⟩ := (readRequests_own hid hown hconn).1 hroom
  rw [List.foldlM_append, hrun, ok_bind, List.foldlM_cons,
    readRequest_foreign (hsame ▸ hconn) hclient]
  by_cases hrange : r.request.clientId.toNat < maxNumClients
  · rw [if_pos hrange]
    refine .inr ⟨_, rfl, ?_⟩
    rintro ⟨sent, hsent, hto⟩
    obtain ⟨before, hbefore, _⟩ := hiso.responses
    have hpush : (before ++ [ClientResponseInternal.ofServer .invalidRequest
        r.request.clientId]).foldl .push s.serverResponses =
        sent.foldl .push s.serverResponses := by
      rw [List.foldl_append, ← hbefore]
      exact hsent
    rcases List.eq_nil_or_concat sent with rfl | ⟨sent', x, rfl⟩
    · have hnum := congrArg LockFreeQueue.numElements hpush
      rw [(LockFreeQueue.push_all_index _).2, List.length_append] at hnum
      simp at hnum
    · rw [List.concat_eq_append] at hpush hto
      have hx := LockFreeQueue.last_of_push_all hpush
      have hroute := hto x (by simp)
      rw [← hx] at hroute
      have hderef : deref (s₁.clientConnections.owner r.request.clientId.toNat) = .ok conn := by
        have : (if r.request.clientId.toNat < maxNumClients then
            deref (s₁.clientConnections.owner r.request.clientId.toNat) else
            .error .badAccess) = .ok conn := hroute
        rwa [if_pos hrange] at this
      rw [hsame] at hderef
      rcases howner : s.clientConnections.owner r.request.clientId.toNat with _ | p
      · rw [howner] at hderef
        cases hderef
      · rw [howner, deref_some] at hderef
        cases hderef
        exact hclient (s.clientConnections.owner_unique _ _ _ howner hconn)
  · rw [if_neg hrange]
    exact .inl rfl

end Requests

section Harmless
variable {host : ByteOrder} {id conn : Nat} {userTime : Int64} {s : OrderServer}

/-- Reading some of the bytes is reading the complete requests among them. -/
theorem readData_received (hbuffer : (s.connection conn).nextRcvValidIndex ≤ tcpBufferSize)
    {n : Nat} (hn : n ≤ (s.connection conn).nextRcvValidIndex) : ∃ c',
    (s.received conn n).readData host conn userTime =
      (((TcpConnection.requests host (s.connection conn).received).take
        (n / sizeofClientRequest)).foldlM (readRequest conn userTime) (s.received conn n) >>=
        fun s' => .ok { s' with connection := Function.update s'.connection conn c' }) := by
  have hcut : ((s.connection conn).validUpTo n).received =
      (s.connection conn).received.take n := by
    have hfield : field (readCells (s.connection conn).inboundData 0
        (s.connection conn).nextRcvValidIndex) 0 n =
        readCells (s.connection conn).inboundData 0 n :=
      field_readCells _ (by omega)
    rw [TcpConnection.received, TcpConnection.received]
    exact hfield.symm
  obtain ⟨c', hread, _⟩ := @TcpConnection.readData_eq _ host (readRequest conn userTime)
    ((s.connection conn).validUpTo n) (hn.trans hbuffer) (s.received conn n)
  have hself : (s.received conn n).connection conn = (s.connection conn).validUpTo n :=
    Function.update_self ..
  refine ⟨c', ?_⟩
  rw [readData, hself, hread, hcut, TcpConnection.requests, blocks_take
    (by rwa [TcpConnection.length_received]), List.map_take, ← TcpConnection.requests]
  cases ((TcpConnection.requests host (s.connection conn).received).take
    (n / sizeofClientRequest)).foldlM (readRequest conn userTime) (s.received conn n) <;> rfl

/-- The first record that names another client. -/
theorem first_foreign (id : Nat) (rs : List ClientRequestExternal) :
    (∀ r ∈ rs, r.request.clientId.toNat = id) ∨ ∃ seen r rest, rs = seen ++ r :: rest ∧
      (∀ r ∈ seen, r.request.clientId.toNat = id) ∧ r.request.clientId.toNat ≠ id := by
  induction rs with
  | nil => exact .inl nofun
  | cons r rs ih =>
    by_cases hr : r.request.clientId.toNat = id
    · rcases ih with hall | ⟨seen, r', rest, rfl, hown, hforeign⟩
      · exact .inl (List.forall_mem_cons.mpr ⟨hr, hall⟩)
      · exact .inr ⟨r :: seen, r', rest, rfl, List.forall_mem_cons.mpr ⟨hr, hown⟩, hforeign⟩
    · exact .inr ⟨[], r, rs, rfl, nofun, hr⟩

theorem harmless_of_namesOnly (hid : id < maxNumClients)
    (hconn : s.clientConnections.owner id = some conn)
    (hbuffer : (s.connection conn).nextRcvValidIndex ≤ tcpBufferSize)
    (hnames : s.NamesOnly host id conn) : s.Harmless host id conn userTime := by
  intro n hn
  obtain ⟨c', hread⟩ := @readData_received host conn userTime s hbuffer n hn
  rw [hread]
  have hfatal : ∀ seen, (∀ r ∈ seen, r.request.clientId.toNat = id) → ¬ s.Room id seen →
      seen.foldlM (readRequest conn userTime) (s.received conn n) = .error .fatal :=
    fun seen hown => (@readRequests_own id conn userTime (s.received conn n) seen hid hown hconn).2
  rcases first_foreign id ((TcpConnection.requests host (s.connection conn).received).take
    (n / sizeofClientRequest)) with hown | ⟨seen, r, rest, hrs, hown, hforeign⟩
  · by_cases hroom : s.Room id ((TcpConnection.requests host (s.connection conn).received).take
      (n / sizeofClientRequest))
    · obtain ⟨s', hrun, hiso, _⟩ :=
        (@readRequests_own id conn userTime (s.received conn n) _ hid hown hconn).1 hroom
      rw [hrun, ok_bind, onReturn_ok]
      exact ⟨nofun, hiso.incoming, hiso.pending, hiso.responses⟩
    · rw [hfatal _ hown hroom]
      exact ⟨nofun, nofun⟩
  · have hfull : ¬ s.Room id seen := fun hroom =>
      hforeign (hnames seen r (rest ++ (TcpConnection.requests host
        (s.connection conn).received).drop (n / sizeofClientRequest)) (by
          rw [← List.cons_append, ← List.append_assoc, ← hrs, List.take_append_drop]) hroom)
    rw [hrs, List.foldlM_append, hfatal seen hown hfull]
    exact ⟨nofun, nofun⟩

theorem namesOnly_of_harmless (hid : id < maxNumClients)
    (hconn : s.clientConnections.owner id = some conn)
    (hbuffer : (s.connection conn).nextRcvValidIndex ≤ tcpBufferSize)
    (hharmless : s.Harmless host id conn userTime) : s.NamesOnly host id conn := by
  intro seen r rest hrs hroom
  by_contra hforeign
  -- the first foreign record comes no later than this one
  obtain ⟨seen, r, rest, hrs, hroom, hown, hforeign⟩ : ∃ seen r rest,
      TcpConnection.requests host (s.connection conn).received = seen ++ r :: rest ∧
      s.Room id seen ∧ (∀ r ∈ seen, r.request.clientId.toNat = id) ∧
      r.request.clientId.toNat ≠ id := by
    rcases first_foreign id seen with hown | ⟨seen', r', rest', rfl, hown, hforeign'⟩
    · exact ⟨seen, r, rest, hrs, hroom, hown, hforeign⟩
    · exact ⟨seen', r', rest' ++ r :: rest, by rw [hrs]; simp, hroom.left, hown, hforeign'⟩
  have hlen : seen.length + 1 ≤ (s.connection conn).received.length / sizeofClientRequest := by
    have := congrArg List.length hrs
    rw [TcpConnection.requests, List.length_map, length_blocks, List.length_append,
      List.length_cons] at this
    omega
  have hn : sizeofClientRequest * (seen.length + 1) ≤ (s.connection conn).nextRcvValidIndex := by
    rw [← TcpConnection.length_received]
    exact (Nat.mul_le_mul_left _ hlen).trans (Nat.mul_div_le ..)
  obtain ⟨c', hread⟩ := @readData_received host conn userTime s hbuffer _ hn
  obtain ⟨hsafe, hiso⟩ := hharmless _ hn
  have htake : (seen ++ r :: rest).take (seen.length + 1) = seen ++ [r] := by
    rw [List.take_length_add_append]
    rfl
  rw [hread, Nat.mul_div_cancel_left _ TcpConnection.sizeofClientRequest_pos, hrs, htake]
    at hsafe hiso
  rcases @not_isolated_foreign id conn userTime (s.received conn _) r seen hid hown hconn hroom
    hforeign with hbad | ⟨s', hrun, hnone⟩
  · rw [hbad] at hsafe
    exact hsafe rfl
  · rw [hrun, ok_bind, onReturn_ok] at hiso
    exact hnone hiso.responses

/-- A client's bytes do no harm to others exactly when every record in them, up to the one
at which the pending table overflows, names this client. -/
theorem harmless_iff_namesOnly (hid : id < maxNumClients)
    (hconn : s.clientConnections.owner id = some conn)
    (hbuffer : (s.connection conn).nextRcvValidIndex ≤ tcpBufferSize) :
    s.Harmless host id conn userTime ↔ s.NamesOnly host id conn :=
  ⟨namesOnly_of_harmless hid hconn hbuffer, harmless_of_namesOnly hid hconn hbuffer⟩

end Harmless

/-- Two clients are connected, and the first has sent some bytes. -/
def twoClients (bytes : List UInt8) : OrderServer :=
  { create (.create .default 4) with
    nextClientId := 2
    clientConnections := (ClientConnections.create.adopt 0).adopt 1
    connection := Function.update (fun _ => .create) 0
      ((TcpConnection.create.receive bytes).arrive bytes.length) }

/-- A request in turn and one that is not. -/
theorem harmless_iff_namesOnly_sample :
    (twoClients ((serializeClientRequest .little ⟨1, ⟨.new, 0, 0, 1, .buy, 10, 5⟩⟩) ++
      serializeClientRequest .little ⟨7, ⟨.new, 0, 0, 2, .buy, 10, 5⟩⟩)).Harmless
        .little 0 0 0 := by
  refine (harmless_iff_namesOnly (by decide) rfl (by decide)).mpr ?_
  intro seen r rest hrs _
  have hall : ∀ r ∈ TcpConnection.requests .little ((twoClients ((serializeClientRequest .little
      ⟨1, ⟨.new, 0, 0, 1, .buy, 10, 5⟩⟩) ++ serializeClientRequest .little
      ⟨7, ⟨.new, 0, 0, 2, .buy, 10, 5⟩⟩)).connection 0).received,
      r.request.clientId.toNat = 0 := by decide +kernel
  exact hall r (by rw [hrs]; simp)

/-- A record that names a client out of range is looked up behind the table; one that names
another client is answered on that client's connection. -/
theorem foreign_record_harmful :
    (twoClients (serializeClientRequest .little ⟨1, ⟨.new, 10, 0, 1, .buy, 10, 5⟩⟩)).readData
      .little 0 0 = .error .badAccess ∧
    ¬ (twoClients (serializeClientRequest .little ⟨1, ⟨.new, 10, 0, 1, .buy, 10, 5⟩⟩)).Harmless
      .little 0 0 0 ∧
    OnReturn ((twoClients (serializeClientRequest .little
      ⟨1, ⟨.new, 1, 0, 1, .buy, 10, 5⟩⟩)).readData .little 0 0) (fun s' =>
        s'.serverResponses.nextReadElement = some (.ofServer .invalidRequest 1) ∧
        s'.clientConnections.owner 1 = some 1) ∧
    ¬ (twoClients (serializeClientRequest .little ⟨1, ⟨.new, 1, 0, 1, .buy, 10, 5⟩⟩)).Harmless
      .little 0 0 0 := by
  have hbad : (twoClients (serializeClientRequest .little
      ⟨1, ⟨.new, 10, 0, 1, .buy, 10, 5⟩⟩)).readData .little 0 0 = .error .badAccess :=
    eq_error_of_faultOf (by decide +kernel)
  refine ⟨hbad, ?_, by decide +kernel, ?_⟩ <;> intro h
  · have hnames := namesOnly_of_harmless (by decide) rfl (by decide) h
    exact absurd (hnames [] ⟨1, ⟨.new, 10, 0, 1, .buy, 10, 5⟩⟩ [] (by decide +kernel)
      (room_nil _ _)) (by decide)
  · have hnames := namesOnly_of_harmless (by decide) rfl (by decide) h
    exact absurd (hnames [] ⟨1, ⟨.new, 1, 0, 1, .buy, 10, 5⟩⟩ [] (by decide +kernel)
      (room_nil _ _)) (by decide)

end OrderServer

end StockExchange
