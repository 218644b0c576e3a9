import AesdChar.Lib.Fairness
import AesdChar.Proof.Client
import AesdChar.Proof.Faults
import AesdChar.Proof.SystemCalls

/-!
# Clients at the same time

The threads of any number of clients make their calls in any order. Each makes the calls that touch
the driver with `file_mutex` held, so the driver ends up as if the connections had been served one
after the other, in the order in which their threads got the mutex, and every client receives what
it would have received then.
-/

namespace AesdChar

open Lib Relation

/-- The order in which the clients get `file_mutex`. -/
def mutexOrder (kernel : Kernel) (connections : Nat → Connection) (schedule : List Nat) :
    List Nat :=
  (handleClientProgram.order (Clients.start kernel connections) schedule).map Prod.fst

/-! ### One section for each client -/

theorem mode_eq_waiting_iff {point : Point} : point.mode = .waiting ↔ point = .lock := by
  cases point <;> simp [Point.mode]

theorem once_handleClientProgram : handleClientProgram.Once := by
  intro start kernel stop kernel' own hsection hmoves
  have hstop : ∀ last : ClientThread × Kernel,
      ReflTransGen handleClientProgram.Inside (start.enter, kernel) last →
        last.1.point ≠ .lock := by
    intro last hruns
    induction hruns with
    | refl => simp [ClientThread.enter]
    | tail _ hstep ih =>
        rw [hstep.2]
        exact (inside_opened hstep.1 _).1
  have hown : own.point ≠ .lock := by
    induction hmoves with
    | refl => exact hstop _ hsection.runs
    | @tail own own' _ hstep ih =>
        obtain ⟨-, rfl⟩ := hstep
        change own.outside.point ≠ .lock
        unfold ClientThread.outside
        split
        · simp
        · exact ih
  exact fun hwaits => hown (mode_eq_waiting_iff.mp hwaits)

theorem sent_of_outside {thread thread' : ClientThread}
    (hmoves : ReflTransGen handleClientProgram.Outside thread thread') :
    thread'.sent = thread.sent := by
  induction hmoves with
  | refl => rfl
  | @tail own own' _ hstep ih =>
      obtain ⟨-, rfl⟩ := hstep
      rw [← ih]
      change own.outside.sent = own.sent
      unfold ClientThread.outside
      split <;> rfl

/-! ### The driver -/

/-- What a client receives that is served now. -/
def replyTo (kernel : Kernel) (connection : Connection) : Bytes :=
  match handleClient connection.env kernel connection.stack connection.chunks with
  | some turn => turn.state.sent
  | none => []

section Serve

variable {kernel : Kernel} {log : Log} {lost : Finset Ptr}

/-- The section of a client's thread does what serving its connection does. -/
theorem Refines.section_of_serve (h : Refines kernel log lost) (connection : Connection) :
    ∃ stop, handleClientProgram.Section connection.thread kernel stop (serve kernel connection) ∧
      stop.sent = replyTo kernel connection := by
  obtain ⟨turn, -, -, hclient, -, -⟩ := handleClient_serves h connection
  obtain ⟨stop, hsection, hsent, -⟩ := handleClient_section hclient
  have hserve : serve kernel connection = turn.state.kernel := by rw [serve, hclient]
  have hreply : replyTo kernel connection = turn.state.sent := by rw [replyTo, hclient]
  exact ⟨stop, hserve ▸ hsection, hreply ▸ hsent⟩

variable {connections : Nat → Connection} {visits : List (Visit ClientThread Nat)} {kernel' : Kernel}

theorem serveAll_concat (kernel : Kernel) (connections : List Connection) (connection : Connection) :
    serveAll kernel (connections ++ [connection]) =
      serve (serveAll kernel connections) connection := by
  rw [serveAll, Lib.run, List.foldl_append]
  rfl

/-- **Sections one after the other are connections one after the other.** -/
theorem Refines.serial_serveAll (h : Refines kernel log lost)
    (hserial : handleClientProgram.Serial (fun tid => (connections tid).thread) visits kernel
      kernel') : kernel' = serveAll kernel (visits.map fun visit => connections visit.thread) := by
  induction hserial with
  | nil => rfl
  | @concat visits visit _ between kernel'' hvisits hreached hvisit ih =>
      obtain ⟨-, hstarts⟩ := (hvisits.concat hreached hvisit).once once_handleClientProgram
        fun _ => rfl
      have hbetween := ih h
      obtain ⟨log', lost', -, hrefines⟩ := serveAll_serves h
        (visits.map fun visit => connections visit.thread)
      rw [← hbetween] at hrefines
      obtain ⟨stop, hsection, -⟩ := hrefines.section_of_serve (connections visit.thread)
      rw [← hstarts visit List.mem_concat_self] at hsection
      rw [List.map_append, List.map_singleton, serveAll_concat, ← hbetween]
      exact (hsection.unique hvisit).2

/-- Where the driver is, and where it will be when the holder has let the mutex go. -/
theorem Refines.serialized (h : Refines kernel log lost) {order : List (Nat × ClientThread)}
    {clients : Clients}
    (hclients : handleClientProgram.Serialized (Clients.start kernel connections) order clients) :
    (clients.holder = none →
        clients.shared = serveAll kernel ((order.map Prod.fst).map connections)) ∧
      ∀ tid, clients.holder = some tid → (order.map Prod.fst).getLast? = some tid ∧
        handleClientProgram.mode (clients.own tid) = .holding ∧
        ∃ stop, handleClientProgram.mode stop ≠ .holding ∧
          ReflTransGen handleClientProgram.Inside (clients.own tid, clients.shared)
            (stop, serveAll kernel ((order.map Prod.fst).map connections)) := by
  cases hclients with
  | @free visits _ hserial hholder hidle =>
      rw [Program.map_fst_taking]
      refine ⟨fun _ => ?_, fun tid hheld => by rw [hholder] at hheld; cases hheld⟩
      rw [h.serial_serveAll hserial, List.map_map]
      rfl
  | @held visits _ tid start between hserial hholder hwaits hreached hruns hholding hidle =>
      obtain rfl : between = serveAll kernel (visits.map fun visit => connections visit.thread) :=
        h.serial_serveAll hserial
      obtain ⟨log', lost', -, hrefines⟩ := serveAll_serves h
        (visits.map fun visit => connections visit.thread)
      obtain ⟨stop, hsection, -⟩ := hrefines.section_of_serve (connections tid)
      obtain ⟨-, rfl⟩ := hserial.fresh once_handleClientProgram (fun _ => rfl) hreached hwaits
      rw [List.map_append, Program.map_fst_taking, List.map_singleton]
      refine ⟨?_, fun other hheld => ?_⟩
      · intro hfree
        rw [hholder] at hfree
        cases hfree
      · obtain rfl : tid = other := Option.some.inj (hholder.symm.trans hheld)
        refine ⟨List.getLast?_concat, hholding, stop, hsection.leaves, ?_⟩
        rw [List.map_append, List.map_singleton, serveAll_concat, List.map_map]
        exact hsection.rest hruns

/-! ### The clients -/

/-- A thread that is through has sent what serving its connection at its turn would have sent. -/
theorem Refines.answered (h : Refines kernel log lost)
    (hserial : handleClientProgram.Serial (fun tid => (connections tid).thread) visits kernel kernel')
    {before after : List Nat} {tid : Nat} (hsplit : visits.map Visit.thread = before ++ tid :: after)
    {thread : ClientThread} (hidle : handleClientProgram.Idle
      (stops (fun tid => (connections tid).thread) visits tid) thread) :
    thread.sent = replyTo (serveAll kernel (before.map connections)) (connections tid) := by
  obtain ⟨hnodup, hstarts⟩ := hserial.once once_handleClientProgram fun _ => rfl
  obtain ⟨earlier, rest, rfl, rfl, hrest⟩ := List.map_eq_append_iff.mp hsplit
  obtain ⟨visit, later, rfl, rfl, -⟩ := List.map_eq_cons_iff.mp hrest
  obtain ⟨found, left, hearlier, hsection⟩ := hserial.split rfl
  obtain rfl : found = serveAll kernel (earlier.map fun visit => connections visit.thread) :=
    h.serial_serveAll hearlier
  have hmem : visit ∈ earlier ++ visit :: later := List.mem_append_right _ List.mem_cons_self
  have hstop : stops (fun tid => (connections tid).thread) (earlier ++ visit :: later)
      visit.thread = visit.stop := by
    rcases Program.stops_cases (fun tid => (connections tid).thread) (earlier ++ visit :: later)
      visit.thread with ⟨hnew, -⟩ | ⟨other, hother, hthread, hstop⟩
    · exact absurd (List.mem_map_of_mem hmem) hnew
    · rw [hstop, List.inj_on_of_nodup_map hnodup hother hmem hthread]
  obtain ⟨log', lost', -, hrefines⟩ := serveAll_serves h
    (earlier.map fun visit => connections visit.thread)
  obtain ⟨stop, hserve, hsent⟩ := hrefines.section_of_serve (connections visit.thread)
  rw [← hstarts visit hmem] at hserve
  calc
    thread.sent = visit.stop.sent := by rw [sent_of_outside hidle.since, hstop]
    _ = stop.sent := by rw [(hserve.unique hsection).1]
    _ = replyTo (serveAll kernel ((earlier.map Visit.thread).map connections))
        (connections visit.thread) := by rw [hsent, List.map_map]; rfl

theorem Refines.answered_in_order (h : Refines kernel log lost) {order : List (Nat × ClientThread)}
    {clients : Clients}
    (hclients : handleClientProgram.Serialized (Clients.start kernel connections) order clients)
    {before after : List Nat} {tid : Nat} (hsplit : order.map Prod.fst = before ++ tid :: after)
    (hleft : clients.holder ≠ some tid) : (clients.own tid).sent =
      replyTo (serveAll kernel (before.map connections)) (connections tid) := by
  cases hclients with
  | @free visits _ hserial _ hidle =>
      rw [Program.map_fst_taking] at hsplit
      exact h.answered hserial hsplit (hidle tid)
  | @held visits _ holder _ _ hserial hholder _ _ _ _ hidle =>
      rw [List.map_append, Program.map_fst_taking, List.map_singleton] at hsplit
      have hne : tid ≠ holder := by
        rintro rfl
        exact hleft hholder
      rcases List.eq_nil_or_concat after with rfl | ⟨rest, last, rfl⟩
      · exact absurd (List.head_eq_of_cons_eq (List.append_inj' hsplit rfl).2).symm hne
      · rw [List.concat_eq_append, ← List.cons_append, ← List.append_assoc] at hsplit
        exact h.answered hserial (List.append_inj' hsplit rfl).1 (hidle tid hne)

end Serve

/-- **Clients are served as if one after the other.** However the calls of their threads are
interleaved, whenever `file_mutex` is free the driver is as if the connections of the threads that
have had it had been served one by one in that order, and no thread gets it twice. Whenever a thread
holds it, that thread has got it last, and some number of its own calls leads there. -/
theorem clients_serializable (config : KmallocConfig) (calls : List Call)
    (connections : Nat → Connection) (schedule : List Nat) :
    let kernel := ((System.init config).run calls).kernel
    let clients := (Clients.start kernel connections).run schedule
    let order := mutexOrder kernel connections schedule
    order.Nodup ∧
      (clients.holder = none → clients.shared = serveAll kernel (order.map connections)) ∧
      ∀ tid, clients.holder = some tid → order.getLast? = some tid ∧
        ∃ count, (clients.run (List.replicate count tid)).holder = none ∧
          (clients.run (List.replicate count tid)).shared =
            serveAll kernel (order.map connections) := by
  intro kernel clients order
  obtain ⟨log, lost, hfollows, -, -⟩ := run_follows config calls
  have hserialized : handleClientProgram.Serialized (Clients.start kernel connections)
      (handleClientProgram.order (Clients.start kernel connections) schedule) clients :=
    handleClientProgram.serialized_run (fun _ => Mode.noConfusion) schedule
  obtain ⟨hfree, hheld⟩ := hfollows.refines.serialized hserialized
  have hnodup := hserialized.order_nodup once_handleClientProgram fun _ => rfl
  refine ⟨hnodup, hfree, fun tid hholder => ?_⟩
  obtain ⟨hlast, hholding, stop, hleaves, hrest⟩ := hheld tid hholder
  obtain ⟨count, hcount⟩ := Program.run_holder hholding hleaves hrest
  refine ⟨hlast, count, ?_, ?_⟩
  · exact congrArg Threads.holder hcount
  · exact congrArg Threads.shared hcount

/-- **Every client is answered at its turn.** A thread that has had `file_mutex` and let it go has
sent exactly the bytes its client would have got if the connections before it in the order of the
mutex had been served and then its own; a thread that has not had the mutex has sent nothing. -/
theorem clients_answered (config : KmallocConfig) (calls : List Call)
    (connections : Nat → Connection) (schedule : List Nat) :
    let kernel := ((System.init config).run calls).kernel
    let clients := (Clients.start kernel connections).run schedule
    let order := mutexOrder kernel connections schedule
    (∀ before tid after, order = before ++ tid :: after → clients.holder ≠ some tid →
        (clients.own tid).sent =
          replyTo (serveAll kernel (before.map connections)) (connections tid)) ∧
      ∀ tid, tid ∉ order → (clients.own tid).sent = [] := by
  intro kernel clients order
  obtain ⟨log, lost, hfollows, -, -⟩ := run_follows config calls
  have hrefines : Refines kernel log lost := hfollows.refines
  have hserialized : handleClientProgram.Serialized (Clients.start kernel connections)
      (handleClientProgram.order (Clients.start kernel connections) schedule) clients :=
    handleClientProgram.serialized_run (fun _ => Mode.noConfusion) schedule
  refine ⟨fun before tid after => hrefines.answered_in_order hserialized, fun tid hnew => ?_⟩
  have hown : clients.own tid = (connections tid).thread :=
    hserialized.waits_of_notMem (fun _ => rfl) hnew
  rw [hown]
  rfl

end AesdChar
