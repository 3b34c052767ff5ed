import Iuring.Reactive.Driver
import Iuring.Safety.OneShot

/-!
# Programs that use an `IOUring`

A program makes some calls and then polls in a loop; its handlers make further calls.  Two habits of
such programs are in their language.  A handler does not poll, and an item that a body was handed is
submitted once, after which the body does not have it any more.

* `Command`, `Program` : the language.
* `Program.machine` : a program with an `IOUring` and its kernel.
* `Program.Move`, `Program.move_of_next` : what a step of the program may be.
-/

namespace Iuring

open Reactive

/-! ### The language -/

/-- A call in the body of a program.  The calls without a socket are on the item that the body was
handed last. -/
inductive Command
  | submitAccept (socket : Socket) (fn : ℕ)
  | submitConnect (socket : Socket) (target : IPAddress) (fn : ℕ)
  | submitRecv (socket : Socket) (fn : ℕ)
  | submitClose (socket : Socket) (fn : ℕ)
  | ackuireSendWorkitem (socket : Socket)
  | getSendPacket
  | append (data : List UInt8)
  | submitStreamData (fn : ℕ)

namespace Command

/-- The call, if the body has the item `wi`. -/
def call (wi : Option Ref) : Command → Option ClientCall
  | .submitAccept socket fn => some (.submitAccept socket (some fn))
  | .submitConnect socket target fn => some (.submitConnect socket target (some fn))
  | .submitRecv socket fn => some (.submitRecv socket (some fn))
  | .submitClose socket fn => some (.submitClose socket (some fn))
  | .ackuireSendWorkitem socket => some (.ackuireSendWorkitem socket)
  | .getSendPacket => wi.map .getSendPacket
  | .append data => wi.map fun ref => .append ref (fun i => data.getD i 0) data.length
  | .submitStreamData fn => wi.map fun ref => .submitStreamData ref (some fn)

/-- The item that the body has after the call. -/
def keeps (s : Sys) (wi : Option Ref) : Command → Option Ref
  | .ackuireSendWorkitem _ => some s.pool.nextRef
  | .submitStreamData _ => none
  | _ => wi

/-- The socket that a call is made for. -/
def socket : Command → Option Socket
  | .submitAccept socket _ | .submitConnect socket _ _ | .submitRecv socket _
  | .submitClose socket _ | .ackuireSendWorkitem socket => some socket
  | .getSendPacket | .append _ | .submitStreamData _ => none

/-- What the call submits: the type of the item, and its callback. -/
def submission : Command → Option (WorkType × Callback)
  | .submitAccept _ fn => some (.accept, .accept (some fn))
  | .submitConnect _ _ fn => some (.connect, .connect (some fn))
  | .submitRecv _ fn => some (.recv, .recv (some fn))
  | .submitClose _ fn => some (.close, .close (some fn))
  | .submitStreamData fn => some (.sendStreamData, .send (some fn))
  | .ackuireSendWorkitem _ | .getSendPacket | .append _ => none

variable {cmd : Command} {wi : Option Ref} {k : ClientCall} {ref : Ref}

theorem call_socket (h : cmd.call wi = some k) : k.socket = cmd.socket := by
  cases cmd with
  | getSendPacket | append data | submitStreamData fn =>
    obtain ⟨ref, -, rfl⟩ := Option.map_eq_some_iff.1 h
    rfl
  | submitAccept | submitConnect | submitRecv | submitClose | ackuireSendWorkitem => cases h; rfl

/-- A call submits the item that the body has, or a new one. -/
theorem call_submits (h : cmd.call wi = some k) (hk : k.submits = some ref) :
    wi = some ref ∧ ∀ s, cmd.keeps s wi = none := by
  cases cmd with
  | getSendPacket | append data =>
    obtain ⟨ref, -, rfl⟩ := Option.map_eq_some_iff.1 h
    cases hk
  | submitStreamData fn =>
    obtain ⟨ref', hwi, rfl⟩ := Option.map_eq_some_iff.1 h
    cases hk
    exact ⟨hwi, fun _ => rfl⟩
  | submitAccept | submitConnect | submitRecv | submitClose | ackuireSendWorkitem =>
    cases h
    cases hk

/-- The item that the body has after a call is new, or it had it before. -/
theorem keeps_cases {s : Sys} (h : cmd.call wi = some k) (href : cmd.keeps s wi = some ref) :
    (ref = s.pool.nextRef ∧ ∃ socket, k = .ackuireSendWorkitem socket) ∨
      wi = some ref ∧ k.submits ≠ some ref := by
  have hold : wi = some ref → k.submits ≠ some ref := by
    intro hwi hk
    have hnone := (call_submits h hk).2 s
    rw [hnone] at href
    cases href
  cases cmd with
  | ackuireSendWorkitem socket =>
    cases h
    cases href
    exact .inl ⟨rfl, socket, rfl⟩
  | submitStreamData => cases href
  | getSendPacket | append | submitAccept | submitConnect | submitRecv | submitClose =>
    exact .inr ⟨href, hold href⟩

end Command

/-- A program with global variables `G`: what it does before its loop, what its handlers do, and
whether the loop goes on.  A handler sets the globals, makes some calls and returns; or it stops the
process. -/
structure Program (G : Type) where
  globals : G
  main : List Command
  handler : G → ℕ → HandlerArg → Option (G × List Command × ReceivePostAction)
  polls : G → Bool
  /-- what the loop asserts holds in a round; if not, the process is stopped -/
  asserts : ℕ → Bool := fun _ => true

/-- Where a program is: its globals, what is left of the body that runs, what the body answers if it
is that of a handler, and how many rounds of the loop there were. -/
structure Thread (G : Type) where
  globals : G
  todo : List Command
  answer : Option ReceivePostAction := none
  round : ℕ := 0

namespace Program

variable {G : Type} (P : Program G)

/-- There is another round of the loop. -/
def goesOn (t : Thread G) : Bool := P.polls t.globals && P.asserts t.round

/-- The next step of a program: the next call of the body, the return of the handler, or a round of
the loop. -/
def label (x : Thread G × Option Ref) : Option Label :=
  match x.1.todo with
  | cmd :: _ => (cmd.call x.2).map .client
  | [] =>
    match x.1.answer with
    | some a => some (.reply a)
    | none => if P.goesOn x.1 then some .poll else none

/-- The program after that step. -/
def after (c c' : Process) (x : Thread G × Option Ref) : Option (Thread G × Option Ref) :=
  match x.1.todo with
  | cmd :: rest => some ({ x.1 with todo := rest }, cmd.keeps c.state x.2)
  | [] =>
    match x.1.answer with
    | some _ => some ({ x.1 with answer := none }, none)
    | none =>
      match c'.stack with
      | [] => some ({ x.1 with round := x.1.round + 1 }, none)
      -- the poll runs a handler
      | (inv, _) :: _ => (P.handler x.1.globals inv.fn inv.arg).map fun
          | (g, body, a) => (⟨g, body, some a, x.1.round + 1⟩, none)

/-- The program as a driver of the system. -/
def driver : Driver Process Label (Thread G × Option Ref) := ⟨P.label, P.after⟩

/-- A program, an `IOUring` and its kernel. -/
def machine : Machine (Process × Thread G × Option Ref) (Turn (ℕ × Completion)) :=
  Iuring.machine.driven P.driver fun x => .post x.1 x.2

/-- The program before its first call. -/
def start (b : Boot) : Process × Thread G × Option Ref :=
  (Iuring.start b, { globals := P.globals, todo := P.main }, none)

variable {P}

/-- What a step of a program may be, from the process `c` to the process `c'`. -/
inductive Move (P : Program G) (c c' : Process) (t : Thread G) (wi : Option Ref) :
    Label → Thread G → Option Ref → Prop
  /-- the body makes its next call -/
  | command {cmd : Command} {rest : List Command} {k : ClientCall} (ht : t.todo = cmd :: rest)
      (hk : cmd.call wi = some k) :
      Move P c c' t wi (.client k) { t with todo := rest } (cmd.keeps c.state wi)
  /-- the handler returns -/
  | reply {a : ReceivePostAction} (ht : t.todo = []) (ha : t.answer = some a) :
      Move P c c' t wi (.reply a) { t with answer := none } none
  /-- a round of the loop that runs no handler -/
  | quiet (ht : t.todo = []) (ha : t.answer = none) (hg : P.goesOn t = true)
      (hs : c'.stack = []) : Move P c c' t wi .poll { t with round := t.round + 1 } none
  /-- a round of the loop that runs a handler -/
  | called {a : Activation Sys Invocation ReceivePostAction Stop}
      {rest : List (Activation Sys Invocation ReceivePostAction Stop)} {g : G}
      {body : List Command} {r : ReceivePostAction} (ht : t.todo = []) (ha : t.answer = none)
      (hg : P.goesOn t = true) (hs : c'.stack = a :: rest)
      (hh : P.handler t.globals a.1.fn a.1.arg = some (g, body, r)) :
      Move P c c' t wi .poll ⟨g, body, some r, t.round + 1⟩ none
  /-- the kernel posts a completion -/
  | post (i : ℕ) (k : Completion) : Move P c c' t wi (.post i k) t wi

/-- **A step of a program** is a step of its `IOUring`. -/
theorem move_of_next {x y : Process × Thread G × Option Ref} {l : Turn (ℕ × Completion)}
    (h : P.machine.next x l = some y) :
    ∃ m, next x.1 m = some y.1 ∧ P.Move x.1 y.1 x.2.1 x.2.2 m y.2.1 y.2.2 := by
  obtain ⟨c, t, wi⟩ := x
  obtain ⟨c', t', wi'⟩ := y
  rcases Machine.driven_next h with ⟨m, hlabel, hnext, hafter⟩ | ⟨⟨i, k⟩, hnext, heq⟩
  · refine ⟨m, hnext, ?_⟩
    simp only [driver, label, after] at hlabel hafter
    cases ht : t.todo with
    | cons cmd rest =>
      rw [ht] at hlabel hafter
      obtain ⟨k, hk, rfl⟩ := Option.map_eq_some_iff.1 hlabel
      cases hafter
      exact .command ht hk
    | nil =>
      rw [ht] at hlabel hafter
      cases ha : t.answer with
      | some a =>
        rw [ha] at hlabel hafter
        cases hlabel
        cases hafter
        have hmove : P.Move c c' t wi (.reply a) { t with answer := none } none := .reply ht ha
        rw [ht] at hmove
        exact hmove
      | none =>
        rw [ha] at hlabel hafter
        simp only at hlabel hafter
        split_ifs at hlabel with hg
        cases hlabel
        cases hs : c'.stack with
        | nil =>
          rw [hs] at hafter
          cases hafter
          have hmove : P.Move c c' t wi .poll { t with round := t.round + 1 } none :=
            .quiet ht ha hg hs
          rw [ht, ha] at hmove
          exact hmove
        | cons a rest =>
          rw [hs] at hafter
          obtain ⟨⟨g, body, r⟩, hh, heq⟩ := Option.map_eq_some_iff.1 hafter
          cases heq
          exact .called ht ha hg hs hh
  · cases heq
    exact ⟨.post i k, hnext, .post i k⟩

end Program

end Iuring
