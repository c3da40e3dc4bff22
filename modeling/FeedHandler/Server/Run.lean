import FeedHandler.Server.Broadcast

/-! The simulator's clients over a whole run. Only the listening socket is registered with
`epoll`, so `handle_client_disconnect` is never reached: a run is a sequence of `accept`
batches and tick broadcasts, and a client leaves only when a send to it fails.

Each client has its own course (`follow`): from the event after its `accept`, one send per tick
while it is connected, answered by the kernel for its descriptor at that tick. The clients after
any run, and the sends made, are exactly those of every client's own course
(`serve_own_courses`), so no client's course depends on another's answers. -/

namespace FeedHandler.Server

/-- What happens to the client list between two sends of a frame: a batch of
`handle_new_connection`, or the broadcast of a tick's frame of `len` bytes. -/
inductive Event
  | accept (accepted : List (Int × Bool))
  | tick (len : Nat)
  deriving DecidableEq, Repr

/-- `handle_new_connection()`: each `(fd, ok)` is a descriptor `accept` returned, and whether
its socket could be made non-blocking and given its options (if not, it is closed). -/
def ExchangeSimulator.handleNewConnection (s : ExchangeSimulator) (accepted : List (Int × Bool)) :
    ExchangeSimulator :=
  { s with clients := s.clients ++ (accepted.filter (·.2)).map fun c => .new c.1 }

/-- The simulator as the constructor leaves it. -/
def ExchangeSimulator.init : ExchangeSimulator := ⟨[], 0, 0⟩

/-- A run from event number `e`: the simulator after it, and every send made, with the number
of the event that made it. The kernel answers a send at event `e` to `fd` with `answer e fd`. -/
def ExchangeSimulator.serve (answer : Nat → Int → SendCall) :
    ExchangeSimulator → Nat → List Event → ExchangeSimulator × List (Nat × ClientConnection × SendCall)
  | s, _, [] => (s, [])
  | s, e, .accept accepted :: events => serve answer (s.handleNewConnection accepted) (e + 1) events
  | s, e, .tick len :: events =>
    let b := s.broadcastMessage len fun _ fd => answer e fd
    let r := serve answer b.1 (e + 1) events
    (r.1, b.2.map (fun sent => (e, sent)) ++ r.2)

/-- One client's own course from event `e` on: at each tick, if it is active, one send answered
by `answer e fd` and kept as `afterSend` says. Its sends, and its record at the end (`none`
once disconnected). -/
def follow (answer : Nat → Int → SendCall) (client : ClientConnection) :
    Nat → List Event → List (Nat × ClientConnection × SendCall) × Option ClientConnection
  | _, [] => ([], some client)
  | e, .accept _ :: events => follow answer client (e + 1) events
  | e, .tick len :: events =>
    if client.active then
      match afterSend len client (answer e client.fd) with
      | some client' =>
        let r := follow answer client' (e + 1) events
        ((e, client, answer e client.fd) :: r.1, r.2)
      | none => ([(e, client, answer e client.fd)], none)
    else follow answer client (e + 1) events

/-- The clients a run connects: each one's descriptor, the number of the event after its
`accept`, and the events from there. -/
def connectionsFrom : Nat → List Event → List (Int × Nat × List Event)
  | _, [] => []
  | e, .accept accepted :: events =>
    (accepted.filter (·.2)).map (fun c => (c.1, e + 1, events)) ++ connectionsFrom (e + 1) events
  | e, .tick _ :: events => connectionsFrom (e + 1) events

/-- The courses of the clients connected at the start and of those the run connects. -/
def ownCourses (answer : Nat → Int → SendCall) (s : ExchangeSimulator) (e : Nat)
    (events : List Event) : List (List (Nat × ClientConnection × SendCall) × Option ClientConnection) :=
  s.clients.map (fun c => follow answer c e events) ++
    (connectionsFrom e events).map fun c => follow answer (.new c.1) c.2.1 c.2.2

/-- A client at a tick: sent to and kept as `afterSend` says if active, left alone if not. -/
def atTick (len : Nat) (call : Int → SendCall) (client : ClientConnection) :
    Option ClientConnection :=
  if client.active then afterSend len client (call client.fd) else some client

theorem filterMap_atTick_perm (len : Nat) (call : Int → SendCall)
    (clients : List ClientConnection) :
    (clients.filterMap (atTick len call)).Perm (clients.filter (!·.active) ++
      (clients.filter (·.active)).filterMap fun c => afterSend len c (call c.fd)) := by
  induction clients with
  | nil => rfl
  | cons c clients ih =>
    cases h : c.active
    · simpa [atTick, h] using ih.cons c
    · cases hc : afterSend len c (call c.fd) with
      | none => simpa [atTick, h, hc] using ih
      | some c' => simpa [atTick, h, hc] using (ih.cons c').trans List.perm_middle.symm

/-- **One broadcast, answered by descriptor.** The clients after it are each client at the tick,
and the sends are one to each active client. -/
theorem broadcastMessage_by_fd (s : ExchangeSimulator) (len : Nat) (call : Int → SendCall) :
    (s.broadcastMessage len fun _ fd => call fd).1.clients.Perm
      (s.clients.filterMap (atTick len call)) ∧
    (s.broadcastMessage len fun _ fd => call fd).2.Perm
      ((s.clients.filter (·.active)).map fun c => (c, call c.fd)) := by
  obtain ⟨hsends, hcalls, hclients, -, -⟩ := broadcastMessage_spec s len fun _ fd => call fd
  have hmap : (s.broadcastMessage len fun _ fd => call fd).2 =
      ((s.broadcastMessage len fun _ fd => call fd).2.map Prod.fst).map fun c => (c, call c.fd) := by
    apply List.ext_getElem (by simp)
    intro j h₁ _
    simp only [List.getElem_map]
    exact Prod.ext rfl (hcalls j h₁)
  refine ⟨hclients.trans ?_, hmap ▸ hsends.map _⟩
  rw [hmap, List.filterMap_map]
  exact ((hsends.filterMap _).append_left _).trans (filterMap_atTick_perm len call s.clients).symm

theorem follow_tick (answer : Nat → Int → SendCall) (client : ClientConnection) (e len : Nat)
    (events : List Event) :
    (follow answer client e (.tick len :: events)).2 =
      (atTick len (answer e) client).bind (fun c => (follow answer c (e + 1) events).2) ∧
    (follow answer client e (.tick len :: events)).1 =
      (if client.active then [(e, client, answer e client.fd)] else []) ++
        (((atTick len (answer e) client).map fun c => (follow answer c (e + 1) events).1).getD []) := by
  simp only [follow, atTick]
  by_cases h : client.active
  · cases afterSend len client (answer e client.fd) <;> simp [h]
  · simp [h]

theorem flatMap_follow_tick (answer : Nat → Int → SendCall) (e len : Nat) (events : List Event)
    (clients : List ClientConnection) :
    (clients.flatMap fun c => (follow answer c e (.tick len :: events)).1).Perm
      ((clients.filter (·.active)).map (fun c => (e, c, answer e c.fd)) ++
        (clients.filterMap (atTick len (answer e))).flatMap fun c => (follow answer c (e + 1) events).1) := by
  induction clients with
  | nil => rfl
  | cons c clients ih =>
    rw [List.flatMap_cons, (follow_tick answer c e len events).2]
    cases h : c.active
    · simpa [atTick, h] using
        (ih.append_left (follow answer c (e + 1) events).1).trans (List.perm_append_comm_assoc _ _ _)
    · cases hc : afterSend len c (answer e c.fd) with
      | none => simpa [atTick, h, hc] using ih
      | some c' =>
        simpa [atTick, h, hc] using
          ((ih.append_left (follow answer c' (e + 1) events).1).trans
            (List.perm_append_comm_assoc _ _ _)).cons (e, c, answer e c.fd)

theorem ownCourses_accept (answer : Nat → Int → SendCall) (s : ExchangeSimulator) (e : Nat)
    (accepted : List (Int × Bool)) (events : List Event) :
    ownCourses answer s e (.accept accepted :: events) =
      ownCourses answer (s.handleNewConnection accepted) (e + 1) events := by
  simp [ownCourses, follow, connectionsFrom, ExchangeSimulator.handleNewConnection,
    Function.comp_def]

/-- **Every client's course is its own.** After any run, the clients are those whose own course
ends connected, as it leaves them, and the sends made are those of all the clients' own
courses. -/
theorem serve_own_courses (answer : Nat → Int → SendCall) (s : ExchangeSimulator) (e : Nat)
    (events : List Event) :
    (s.serve answer e events).1.clients.Perm ((ownCourses answer s e events).filterMap (·.2)) ∧
    (s.serve answer e events).2.Perm ((ownCourses answer s e events).flatMap (·.1)) := by
  induction events generalizing s e with
  | nil => simp [ExchangeSimulator.serve, ownCourses, follow, connectionsFrom, Function.comp_def]
  | cons event events ih =>
    cases event with
    | accept accepted =>
      rw [ownCourses_accept]
      exact ih _ _
    | tick len =>
      obtain ⟨hclients, hsends⟩ := broadcastMessage_by_fd s len (answer e)
      obtain ⟨ih₁, ih₂⟩ := ih (s.broadcastMessage len fun _ fd => answer e fd).1 (e + 1)
      have hsnd : (fun c => (follow answer c e (.tick len :: events)).2) =
          fun c => (atTick len (answer e) c).bind fun c => (follow answer c (e + 1) events).2 :=
        funext fun c => (follow_tick answer c e len events).1
      simp only [ExchangeSimulator.serve, ownCourses, connectionsFrom] at ih₁ ih₂ ⊢
      constructor
      · refine ih₁.trans ?_
        simp only [List.filterMap_append, List.filterMap_map, Function.comp_def, hsnd,
          ← List.filterMap_filterMap]
        exact (hclients.filterMap _).append_right _
      · simp only [List.flatMap_append, List.flatMap_map] at ih₂ ⊢
        refine (hsends.map _ |>.append ih₂).trans ?_
        refine (((List.Perm.refl _).append ((hclients.flatMap_right _).append_right _)).trans
          (List.Perm.of_eq (List.append_assoc _ _ _).symm)).trans ?_
        refine List.Perm.append_right _ (List.Perm.trans ?_
          (flatMap_follow_tick answer e len events s.clients).symm)
        simp [Function.comp_def]

theorem follow_active (answer : Nat → Int → SendCall) {client client' : ClientConnection}
    (e : Nat) (events : List Event) (hc : client.active = true)
    (h : (follow answer client e events).2 = some client') : client'.active = true := by
  induction events generalizing client e with
  | nil =>
    cases h
    exact hc
  | cons event events ih =>
    cases event with
    | accept => exact ih (e + 1) hc h
    | tick len =>
      rw [(follow_tick answer client e len events).1, atTick, if_pos hc] at h
      obtain ⟨c, hc', h⟩ := Option.bind_eq_some.mp h
      exact ih (e + 1) ((afterSend_fd_active hc').2.trans hc) h

/-- **Broadcasting to the client list.** One broadcast, for any clients and any answers: each
active client is sent to once and the inactive ones never, the `j`-th send is answered by the
`j`-th answer, the clients left are the inactive ones unchanged and the active ones as their
own sends left them, and the totals grow unless there were no clients. Over any run from the
constructed simulator, the clients left and the sends made are those of each connection's own
course, and every client left is active. -/
theorem broadcast_clients_own_outcomes :
    (∀ (s : ExchangeSimulator) (len : Nat) (send : Nat → Int → SendCall),
      ((s.broadcastMessage len send).2.map Prod.fst).Perm (s.clients.filter (·.active)) ∧
      (∀ j (h : j < (s.broadcastMessage len send).2.length),
        (s.broadcastMessage len send).2[j].2 = send j (s.broadcastMessage len send).2[j].1.fd) ∧
      (s.broadcastMessage len send).1.clients.Perm (s.clients.filter (!·.active) ++
        (s.broadcastMessage len send).2.filterMap fun sent => afterSend len sent.1 sent.2) ∧
      (s.broadcastMessage len send).1.totalMessagesSent =
        (if s.clients = [] then s.totalMessagesSent else s.totalMessagesSent + 1) ∧
      (s.broadcastMessage len send).1.totalBytesSent =
        (if s.clients = [] then s.totalBytesSent else s.totalBytesSent + UInt64.ofNat len)) ∧
    (∀ (answer : Nat → Int → SendCall) (events : List Event),
      (ExchangeSimulator.init.serve answer 0 events).1.clients.Perm
        ((connectionsFrom 0 events).filterMap fun c => (follow answer (.new c.1) c.2.1 c.2.2).2) ∧
      (ExchangeSimulator.init.serve answer 0 events).2.Perm
        ((connectionsFrom 0 events).flatMap fun c => (follow answer (.new c.1) c.2.1 c.2.2).1) ∧
      ∀ c ∈ (ExchangeSimulator.init.serve answer 0 events).1.clients, c.active = true) := by
  refine ⟨broadcastMessage_spec, fun answer events => ?_⟩
  obtain ⟨hclients, hsends⟩ := serve_own_courses answer .init 0 events
  simp only [ownCourses, ExchangeSimulator.init, List.map_nil, List.nil_append,
    List.filterMap_map, List.flatMap_map, Function.comp_def] at hclients hsends
  refine ⟨hclients, hsends, fun c hc => ?_⟩
  obtain ⟨conn, -, hconn⟩ := List.mem_filterMap.mp (hclients.mem_iff.mp hc)
  exact follow_active answer _ _ rfl hconn

end FeedHandler.Server
