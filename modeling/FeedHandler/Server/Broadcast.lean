import Mathlib.Data.List.Perm.Basic
import Mathlib.Data.UInt

/-! `server::ExchangeSimulator`'s client list: `send_to_client`, `cleanup_client` and the loop of
`broadcast_message`, which does not advance its index after swapping the last client into a
removed one's slot. The kernel's answer to each `send(2)` is an oracle.

The loop is the index loop of the source (`broadcastLoop`). It runs as a sweep over the clients
not yet visited (`sweep`, `broadcastLoop_eq_sweep`), in which a removal moves the last of them
to the front. From the sweep: every active client is sent to once, the clients left are the
inactive ones and those whose send returned `true`, each changed by its own send only
(`broadcastMessage_spec`). -/

namespace FeedHandler.Server

structure ClientConnection where
  fd : Int
  active : Bool
  messagesSent : UInt64
  bytesSent : UInt64
  lastSendTimeNs : UInt64
  deriving DecidableEq, Repr, Inhabited

/-- `ClientConnection(socket_fd)`. -/
def ClientConnection.new (fd : Int) : ClientConnection := ⟨fd, true, 0, 0, 0⟩

/-- What `send(2)` returns: `-1` with `errno` (`wouldBlock` for `EAGAIN` or `EWOULDBLOCK`), or
the number of bytes written. -/
inductive SendResult
  | failed (wouldBlock : Bool)
  | sent (bytes : Nat)
  deriving DecidableEq, Repr

/-- The kernel's answer to one `send`, and the clock `get_timestamp_ns()` reads after it. -/
structure SendCall where
  result : SendResult
  now : UInt64
  deriving DecidableEq, Repr

/-- `send_to_client(client, data, len)`: whether the client stays, and the client after it. -/
def sendToClient (client : ClientConnection) (len : Nat) (call : SendCall) :
    Bool × ClientConnection :=
  match call.result with
  | .failed wouldBlock => (wouldBlock, client)
  | .sent bytes =>
    if bytes ≠ len then (false, client)
    else (true, { client with
      messagesSent := client.messagesSent + 1
      bytesSent := client.bytesSent + UInt64.ofNat len
      lastSendTimeNs := call.now })

/-- `close(client.fd); client.active = false;` for an active client (the `close` is not
modelled). -/
def deactivate (client : ClientConnection) : ClientConnection :=
  if client.active then { client with active := false } else client

/-- `cleanup_client(index)`: deactivate the client, swap it with the last one, pop the last. -/
def cleanupClient (clients : List ClientConnection) (index : Nat) : List ClientConnection :=
  if index ≥ clients.length then clients
  else
    let clients := clients.modify deactivate index
    let back := clients.length - 1
    let clients := if index < back then
        (clients.set index (clients.getD back default)).set back (clients.getD index default)
      else clients
    clients.dropLast

/-- The last element moved to the front. -/
def moveLastFirst {α : Type} : List α → List α
  | [] => []
  | a :: l => (a :: l).getLast (List.cons_ne_nil a l) :: (a :: l).dropLast

theorem moveLastFirst_perm {α : Type} (l : List α) : (moveLastFirst l).Perm l := by
  cases l with
  | nil => rfl
  | cons a l =>
    show ([(a :: l).getLast (List.cons_ne_nil a l)] ++ (a :: l).dropLast).Perm (a :: l)
    exact List.perm_append_comm.trans (by rw [List.dropLast_append_getLast])

@[simp] theorem length_moveLastFirst {α : Type} (l : List α) :
    (moveLastFirst l).length = l.length :=
  (moveLastFirst_perm l).length_eq

theorem moveLastFirst_concat {α : Type} (l : List α) (a : α) : moveLastFirst (l ++ [a]) = a :: l := by
  cases l with
  | nil => rfl
  | cons b l =>
    show ((b :: l) ++ [a]).getLast (by simp) :: ((b :: l) ++ [a]).dropLast = a :: b :: l
    rw [List.dropLast_concat, List.getLast_append_of_ne_nil (List.cons_ne_nil a []),
      List.getLast_singleton]

theorem cleanupClient_append (before after : List ClientConnection) (client : ClientConnection) :
    cleanupClient (before ++ client :: after) before.length = before ++ moveLastFirst after := by
  have hmod : (before ++ client :: after).modify deactivate before.length =
      before ++ deactivate client :: after := by
    rw [List.modify_eq_take_drop, List.take_left, List.drop_left]
    rfl
  have hlen : ¬before.length ≥ (before ++ client :: after).length := by
    simp only [List.length_append, List.length_cons]
    omega
  rcases List.eq_nil_or_concat after with rfl | ⟨middle, last, rfl⟩
  · unfold cleanupClient
    rw [if_neg hlen, hmod]
    simp [moveLastFirst]
  · rw [List.concat_eq_append] at hmod hlen ⊢
    have hback : (before ++ deactivate client :: (middle ++ [last])).length - 1 =
        before.length + (middle.length + 1) := by simp
    have hi : (before ++ deactivate client :: (middle ++ [last])).getD before.length default =
        deactivate client := by
      rw [List.getD_eq_getElem?_getD, List.getElem?_append_right (Nat.le_refl _), Nat.sub_self,
        List.getElem?_cons_zero, Option.getD_some]
    have hj : (before ++ deactivate client :: (middle ++ [last])).getD
        (before.length + (middle.length + 1)) default = last := by
      rw [List.getD_eq_getElem?_getD, List.getElem?_append_right (by omega),
        Nat.add_sub_cancel_left, List.getElem?_cons_succ,
        List.getElem?_append_right (Nat.le_refl _), Nat.sub_self, List.getElem?_cons_zero,
        Option.getD_some]
    have hswap : ((before ++ deactivate client :: (middle ++ [last])).set before.length last).set
        (before.length + (middle.length + 1)) (deactivate client) =
        before ++ last :: middle ++ [deactivate client] := by
      rw [List.set_append_right _ _ (Nat.le_refl _), Nat.sub_self, List.set_cons_zero,
        List.set_append_right _ _ (by omega), Nat.add_sub_cancel_left, List.set_cons_succ,
        List.set_append_right _ _ (Nat.le_refl _), Nat.sub_self]
      simp
    unfold cleanupClient
    rw [if_neg hlen]
    simp only [hmod]
    rw [hback, if_pos (by omega), hi, hj, hswap, List.dropLast_concat,
      moveLastFirst_concat, List.append_cons]

/-- **Swap and pop.** Removing the client at `index` leaves those before it in place and puts
the last one in its slot. -/
theorem cleanupClient_eq (clients : List ClientConnection) {index : Nat}
    (h : index < clients.length) :
    cleanupClient clients index =
      clients.take index ++ moveLastFirst (clients.drop (index + 1)) := by
  have hsplit := List.take_append_drop index clients
  rw [List.drop_eq_getElem_cons h] at hsplit
  obtain ⟨before, client, after, rfl, rfl⟩ : ∃ before client after,
      clients = before ++ client :: after ∧ before.length = index :=
    ⟨_, _, _, hsplit.symm, List.length_take_of_le h.le⟩
  rw [cleanupClient_append]
  simp

theorem length_cleanupClient (clients : List ClientConnection) {index : Nat}
    (h : index < clients.length) : (cleanupClient clients index).length = clients.length - 1 := by
  rw [cleanupClient_eq clients h, List.length_append, length_moveLastFirst, List.length_take,
    List.length_drop]
  omega

/-- A client after its send, as the outcome says: a full write counts one message of `len` bytes
and stamps the clock, a would-block leaves the client as it is, and a partial write or another
error disconnects it (`none`). -/
def afterSend (len : Nat) (client : ClientConnection) (call : SendCall) :
    Option ClientConnection :=
  match call.result with
  | .sent bytes =>
    if bytes = len then some { client with
      messagesSent := client.messagesSent + 1
      bytesSent := client.bytesSent + UInt64.ofNat len
      lastSendTimeNs := call.now }
    else none
  | .failed wouldBlock => if wouldBlock then some client else none

/-- `send_to_client` keeps the client exactly when `afterSend` does, changed as it says. -/
theorem sendToClient_eq (client : ClientConnection) (len : Nat) (call : SendCall) :
    sendToClient client len call =
      ((afterSend len client call).isSome, (afterSend len client call).getD client) := by
  unfold sendToClient afterSend
  rcases call with ⟨wouldBlock | bytes, now⟩
  · cases wouldBlock <;> rfl
  · by_cases h : bytes = len <;> simp [h]

/-- A send that keeps the client keeps its descriptor and its `active` flag. -/
theorem afterSend_fd_active {len : Nat} {client client' : ClientConnection} {call : SendCall}
    (h : afterSend len client call = some client') :
    client'.fd = client.fd ∧ client'.active = client.active := by
  unfold afterSend at h
  split at h <;> split_ifs at h <;> cases h <;> exact ⟨rfl, rfl⟩

/-! ## The loop of `broadcast_message` -/

/-- The loop of `broadcast_message` from index `i`, the `k`-th send (to `fd`) answered by
`send k fd`: the clients after it, and each send made, with the client it went to, in order.
A client whose send fails is not written back, as `send_to_client` leaves it unchanged then. -/
def broadcastLoop (send : Nat → Int → SendCall) (len : Nat) (clients : List ClientConnection)
    (i k : Nat) : List ClientConnection × List (ClientConnection × SendCall) :=
  if h : i < clients.length then
    let client := clients[i]
    if !client.active then broadcastLoop send len clients (i + 1) k
    else
      let call := send k client.fd
      let sent := sendToClient client len call
      if !sent.1 then
        -- `cleanup_client(i)`; the index is not advanced
        let rest := broadcastLoop send len (cleanupClient clients i) i (k + 1)
        (rest.1, (client, call) :: rest.2)
      else
        let rest := broadcastLoop send len (clients.set i sent.2) (i + 1) (k + 1)
        (rest.1, (client, call) :: rest.2)
  else (clients, [])
termination_by 2 * clients.length - i
decreasing_by
  all_goals simp_wf
  · omega
  · rw [length_cleanupClient clients h]; omega
  · omega

structure ExchangeSimulator where
  clients : List ClientConnection
  totalMessagesSent : UInt64
  totalBytesSent : UInt64
  deriving DecidableEq, Repr

/-- `broadcast_message(data, len)`, and the sends it made. -/
def ExchangeSimulator.broadcastMessage (s : ExchangeSimulator) (len : Nat)
    (send : Nat → Int → SendCall) : ExchangeSimulator × List (ClientConnection × SendCall) :=
  if s.clients.isEmpty then (s, [])
  else
    let loop := broadcastLoop send len s.clients 0 0
    ({ clients := loop.1
       totalMessagesSent := s.totalMessagesSent + 1
       totalBytesSent := s.totalBytesSent + UInt64.ofNat len }, loop.2)

/-! ## The loop as a sweep over the clients not yet visited -/

/-- The loop over the clients it has not visited yet, with `k` sends made: a removal moves the
last of them to the front. -/
def sweep (send : Nat → Int → SendCall) (len : Nat) (k : Nat) :
    List ClientConnection → List ClientConnection × List (ClientConnection × SendCall)
  | [] => ([], [])
  | client :: rest =>
    if !client.active then
      let r := sweep send len k rest
      (client :: r.1, r.2)
    else
      let call := send k client.fd
      let sent := sendToClient client len call
      if !sent.1 then
        let r := sweep send len (k + 1) (moveLastFirst rest)
        (r.1, (client, call) :: r.2)
      else
        let r := sweep send len (k + 1) rest
        (sent.2 :: r.1, (client, call) :: r.2)
termination_by clients => clients.length
decreasing_by all_goals simp_wf

theorem take_set_self {α : Type} (l : List α) (i : Nat) (x : α) : (l.set i x).take i = l.take i := by
  apply List.ext_getElem (by simp)
  intro j h₁ _
  simp only [List.getElem_take, List.getElem_set]
  rw [if_neg (by simp at h₁; omega)]

theorem drop_set_self {α : Type} (l : List α) (i : Nat) (x : α) :
    (l.set i x).drop (i + 1) = l.drop (i + 1) := by
  apply List.ext_getElem (by simp)
  intro j _ _
  simp only [List.getElem_drop, List.getElem_set]
  rw [if_neg (by omega)]

/-- **The index loop is the sweep.** From index `i`, the clients before it stay as they are and
the sweep runs over the rest. -/
theorem broadcastLoop_eq_sweep (send : Nat → Int → SendCall) (len : Nat)
    (clients : List ClientConnection) (i k : Nat) (hi : i ≤ clients.length) :
    broadcastLoop send len clients i k =
      (clients.take i ++ (sweep send len k (clients.drop i)).1,
        (sweep send len k (clients.drop i)).2) := by
  induction clients, i, k using broadcastLoop.induct send len with
  | case1 clients i k h client hskip ih =>
    rw [broadcastLoop, dif_pos h, if_pos hskip, ih h, List.drop_eq_getElem_cons h, sweep,
      if_pos hskip, List.take_succ, List.getElem?_eq_getElem h]
    simp only [Option.toList_some, List.append_assoc, List.singleton_append]
  | case2 clients i k h client hact call sent hfail ih =>
    have hlen := length_cleanupClient clients h
    rw [broadcastLoop, dif_pos h]
    simp only [client, call, sent] at hact hfail
    simp only [hact, hfail, if_false, if_true, ih (by omega)]
    rw [List.drop_eq_getElem_cons h, sweep]
    simp only [hact, hfail, if_false, if_true, cleanupClient_eq clients h]
    simp [List.take_append_of_le_length, List.length_take_of_le h.le, List.drop_left']
  | case3 clients i k h client hact call sent hok ih =>
    rw [broadcastLoop, dif_pos h]
    simp only [client, call, sent] at hact hok ih
    simp only [hact, hok, if_false, ih (by simpa using h)]
    rw [List.drop_eq_getElem_cons h, sweep]
    simp only [hact, hok, if_false]
    simp [List.take_succ, List.getElem?_set_self h, take_set_self, drop_set_self]
  | case4 clients i k h =>
    rw [broadcastLoop, dif_neg h, List.drop_eq_nil_of_le (by omega), List.take_of_length_le (by omega)]
    simp [sweep]

theorem afterSend_eq (client : ClientConnection) (len : Nat) (call : SendCall) :
    afterSend len client call =
      if (sendToClient client len call).1 then some (sendToClient client len call).2 else none := by
  rw [sendToClient_eq]
  cases afterSend len client call <;> rfl

/-- Each active client is sent to once, the inactive ones never. -/
theorem sweep_sends_perm (send : Nat → Int → SendCall) (len k : Nat)
    (clients : List ClientConnection) :
    ((sweep send len k clients).2.map Prod.fst).Perm (clients.filter (·.active)) := by
  induction k, clients using sweep.induct send len with
  | case1 k => simp [sweep]
  | case2 k client rest hskip ih =>
    have hoff : client.active = false := by simpa using hskip
    rw [sweep, if_pos hskip]
    simpa [List.filter_cons, hoff] using ih
  | case3 k client rest hact call sent hfail ih =>
    have hon : client.active = true := by simpa using hact
    rw [sweep, if_neg hact, if_pos hfail]
    simpa [List.filter_cons, hon] using (ih.trans ((moveLastFirst_perm rest).filter _)).cons client
  | case4 k client rest hact call sent hok ih =>
    have hon : client.active = true := by simpa using hact
    rw [sweep, if_neg hact, if_neg hok]
    simpa [List.filter_cons, hon] using ih.cons client

/-- The `j`-th send is answered by `send (k + j)`, for the client it went to. -/
theorem sweep_calls (send : Nat → Int → SendCall) (len k : Nat) (clients : List ClientConnection)
    (j : Nat) (h : j < (sweep send len k clients).2.length) :
    (sweep send len k clients).2[j].2 = send (k + j) (sweep send len k clients).2[j].1.fd := by
  induction k, clients using sweep.induct send len generalizing j with
  | case1 k => simp [sweep] at h
  | case2 k client rest hskip ih =>
    simp only [sweep, if_pos hskip] at h ⊢
    exact ih j h
  | case3 k client rest hact call sent hfail ih =>
    simp only [sweep, if_neg hact, if_pos hfail] at h ⊢
    cases j with
    | zero => rfl
    | succ j =>
      simp only [List.getElem_cons_succ]
      rw [ih j (by simpa using h), show k + 1 + j = k + (j + 1) by omega]
  | case4 k client rest hact call sent hok ih =>
    simp only [sweep, if_neg hact, if_neg hok] at h ⊢
    cases j with
    | zero => rfl
    | succ j =>
      simp only [List.getElem_cons_succ]
      rw [ih j (by simpa using h), show k + 1 + j = k + (j + 1) by omega]

/-- The clients the sweep leaves: the inactive ones as they were, and each one sent to as its
own send left it. -/
theorem sweep_clients_perm (send : Nat → Int → SendCall) (len k : Nat)
    (clients : List ClientConnection) :
    (sweep send len k clients).1.Perm (clients.filter (!·.active) ++
      (sweep send len k clients).2.filterMap fun sent => afterSend len sent.1 sent.2) := by
  induction k, clients using sweep.induct send len with
  | case1 k => simp [sweep]
  | case2 k client rest hskip ih =>
    have hoff : client.active = false := by simpa using hskip
    rw [sweep, if_pos hskip]
    simpa [List.filter_cons, hoff] using ih.cons client
  | case3 k client rest hact call sent hfail ih =>
    have hon : client.active = true := by simpa using hact
    have hnone : afterSend len client call = none := by
      rw [afterSend_eq]
      simp only [call, sent] at hfail ⊢
      have : (sendToClient client len (send k client.fd)).1 = false := by simpa using hfail
      simp [this]
    rw [sweep, if_neg hact, if_pos hfail]
    simpa [List.filter_cons, hon, hnone] using
      ih.trans (((moveLastFirst_perm rest).filter _).append_right _)
  | case4 k client rest hact call sent hok ih =>
    have hon : client.active = true := by simpa using hact
    have hsome : afterSend len client call = some sent.2 := by
      rw [afterSend_eq]
      simp only [call, sent] at hok ⊢
      have : (sendToClient client len (send k client.fd)).1 = true := by simpa using hok
      simp [this]
    rw [sweep, if_neg hact, if_neg hok]
    simpa [List.filter_cons, hon, hsome] using (ih.cons _).trans List.perm_middle.symm

/-- **One broadcast**, for any clients and any answers to the sends. Each active client is sent
to once and the inactive ones never; the `j`-th send is answered by `send j`; the clients left
are the inactive ones, unchanged, and each active one as its own send left it; the totals grow
by one message of `len` bytes unless there were no clients. -/
theorem broadcastMessage_spec (s : ExchangeSimulator) (len : Nat) (send : Nat → Int → SendCall) :
    ((s.broadcastMessage len send).2.map Prod.fst).Perm (s.clients.filter (·.active)) ∧
    (∀ j (h : j < (s.broadcastMessage len send).2.length),
      (s.broadcastMessage len send).2[j].2 = send j (s.broadcastMessage len send).2[j].1.fd) ∧
    (s.broadcastMessage len send).1.clients.Perm (s.clients.filter (!·.active) ++
      (s.broadcastMessage len send).2.filterMap fun sent => afterSend len sent.1 sent.2) ∧
    (s.broadcastMessage len send).1.totalMessagesSent =
      (if s.clients = [] then s.totalMessagesSent else s.totalMessagesSent + 1) ∧
    (s.broadcastMessage len send).1.totalBytesSent =
      (if s.clients = [] then s.totalBytesSent else s.totalBytesSent + UInt64.ofNat len) := by
  by_cases h : s.clients = []
  · simp [ExchangeSimulator.broadcastMessage, h]
  · have hloop := broadcastLoop_eq_sweep send len s.clients 0 0 (Nat.zero_le _)
    simp only [List.take_zero, List.drop_zero, List.nil_append] at hloop
    have hne : s.clients.isEmpty = false := by simpa using h
    simp only [ExchangeSimulator.broadcastMessage, hne, Bool.false_eq_true, if_false, h, hloop]
    refine ⟨sweep_sends_perm send len 0 s.clients, fun j hj => ?_,
      sweep_clients_perm send len 0 s.clients, trivial, trivial⟩
    rw [sweep_calls send len 0 s.clients j hj, Nat.zero_add]

/-- `broadcast_message` keeps an inactive client: it has no send, so no outcome. -/
theorem broadcastMessage_keeps_inactive :
    (ExchangeSimulator.broadcastMessage ⟨[⟨3, false, 0, 0, 0⟩], 0, 0⟩ 20 fun _ _ =>
      ⟨.sent 20, 0⟩) = (⟨[⟨3, false, 0, 0, 0⟩], 1, 20⟩, []) := by
  simp only [ExchangeSimulator.broadcastMessage, List.isEmpty_cons, Bool.false_eq_true, if_false]
  rw [broadcastLoop, dif_pos (by decide)]
  simp only [List.getElem_cons_zero, Bool.not_false, if_true]
  rw [broadcastLoop, dif_neg (by decide)]
  rfl

end FeedHandler.Server
