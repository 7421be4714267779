import PacketReplay.Replay.HttpReplay

/-!
# The calls of an HTTP replay and their answers

Each call takes the next answer of its kind (`Answers.behind`), and an answer may refuse it
(`Answers.Refuses`). The bytes that the system takes from the calls of `write`, each with the
number of the connection that it goes out on, are what the calls put on the wire (`wire`).
-/

namespace PacketReplay

open Lib

namespace Call

def opens : Call → Bool
  | .socket _ => true
  | _ => false

def connects : Call → Bool
  | .connect _ _ => true
  | _ => false

def writes : Call → Bool
  | .write _ _ => true
  | _ => false

def reads : Call → Bool
  | .read _ => true
  | _ => false

/-- If the call makes a connection, it is one to the address. -/
def GoesTo (addr : SockAddr) : Call → Prop
  | .connect _ dest => dest = addr
  | _ => True

theorem goesTo_of_connects {call : Call} (none : call.connects = false) (addr : SockAddr) :
    call.GoesTo addr := by
  cases call with
  | connect socket dest => cases none
  | write socket data => trivial
  | socket family => trivial
  | read socket => trivial
  | close socket => trivial

/-- A call of `write` is none of the others. -/
theorem kinds_of_writes {call : Call} (writes : call.writes = true) :
    call.opens = false ∧ call.connects = false ∧ call.reads = false := by
  cases call with
  | write socket data => exact ⟨rfl, rfl, rfl⟩
  | socket family => cases writes
  | connect socket addr => cases writes
  | read socket => cases writes
  | close socket => cases writes

end Call

/-! ## Answers -/

namespace Answers

/-- The answers that are left behind calls. -/
def behind (answers : Answers) (calls : List Call) : Answers :=
  { answers with
    socket := answers.socket.drop (calls.countP Call.opens)
    connect := answers.connect.drop (calls.countP Call.connects)
    write := answers.write.drop (calls.countP Call.writes)
    read := answers.read.drop (calls.countP Call.reads) }

/-- The exception of a call that has failed. -/
def failure (answers : Answers) (call : String) (errno : Nat) : Exn :=
  .runtimeError (ascii call ++ ascii " failed: " ++ answers.strerror errno ++ ascii " (" ++
    toDecimal errno ++ ascii ")")

/-- The next answer stops a call: the call does not return, or it fails, or the connection
of a `write` or a `read` is closed. -/
def Refuses (answers : Answers) : Call → Stop → Prop
  | .socket _, stop => stop.From (answers.failure "socket") answers.socket.head?
  | .connect _ _, stop => stop.From (answers.failure "connect") answers.connect.head?
  | .write _ _, stop =>
      stop.From (answers.failure "write") answers.write.head? ∨
        answers.write.head? = some (.ok 0) ∧
          stop = .fault (.thrown (.runtimeError (ascii "write failed: connection closed")))
  | .read _, stop =>
      stop.From (answers.failure "read") answers.read.head? ∨
        answers.read.head? = some (.ok []) ∧
          stop = .fault (.thrown (.runtimeError (ascii "read failed: connection closed")))
  | .close _, _ => False

/-- The last one of the calls is stopped by its answer. -/
def Fails (answers : Answers) (calls : List Call) (stop : Stop) : Prop :=
  ∃ before call, calls = before ++ [call] ∧ (answers.behind before).Refuses call stop

variable {answers : Answers} {calls more : List Call} {stop : Stop}

theorem behind_append :
    answers.behind (calls ++ more) = (answers.behind calls).behind more := by
  simp only [behind, List.countP_append, List.drop_drop]

/-- Calls of `write` take the answers to it, and no others. -/
theorem behind_of_writes (writes : ∀ call ∈ calls, call.writes = true) :
    answers.behind calls = { answers with write := answers.write.drop calls.length } := by
  have opens : calls.countP Call.opens = 0 := List.countP_eq_zero.mpr fun call mem =>
    Bool.eq_false_iff.mp (Call.kinds_of_writes (writes call mem)).1
  have connects : calls.countP Call.connects = 0 := List.countP_eq_zero.mpr fun call mem =>
    Bool.eq_false_iff.mp (Call.kinds_of_writes (writes call mem)).2.1
  have reads : calls.countP Call.reads = 0 := List.countP_eq_zero.mpr fun call mem =>
    Bool.eq_false_iff.mp (Call.kinds_of_writes (writes call mem)).2.2
  rw [behind, opens, connects, reads, List.countP_eq_length.mpr writes]
  rfl

/-- Calls of `read` take the answers to it, and no others. -/
theorem behind_reads (answers : Answers) (socket : Int) (n : Nat) :
    answers.behind (List.replicate n (.read socket)) =
      { answers with read := answers.read.drop n } := by
  simp [behind, List.countP_replicate, Call.opens, Call.connects, Call.writes, Call.reads]

/-- A call blocks or throws what it says of its failure. -/
theorem Refuses.stops {call : Call} (refuses : answers.Refuses call stop) :
    stop = .blocked ∨ ∃ what, stop = .fault (.thrown (.runtimeError what)) := by
  have answered {α : Type} {name : String} {answer : Option (Except Nat α)}
      (stopped : stop.From (answers.failure name) answer) :
      stop = .blocked ∨ ∃ what, stop = .fault (.thrown (.runtimeError what)) := by
    rcases stopped with ⟨-, blocked⟩ | ⟨errno, -, failed⟩
    · exact Or.inl blocked
    · exact Or.inr ⟨_, failed⟩
  cases call with
  | socket family => exact answered refuses
  | connect socket addr => exact answered refuses
  | write socket data =>
      rcases refuses with stopped | ⟨-, closed⟩
      · exact answered stopped
      · exact Or.inr ⟨_, closed⟩
  | read socket =>
      rcases refuses with stopped | ⟨-, closed⟩
      · exact answered stopped
      · exact Or.inr ⟨_, closed⟩
  | close socket => exact refuses.elim

theorem Fails.singleton {call : Call} (refuses : answers.Refuses call stop) :
    answers.Fails [call] stop :=
  ⟨[], call, rfl, refuses⟩

theorem Fails.prepend (calls : List Call) (fails : (answers.behind calls).Fails more stop) :
    answers.Fails (calls ++ more) stop := by
  obtain ⟨before, call, rfl, refuses⟩ := fails
  exact ⟨calls ++ before, call, (List.append_assoc _ _ _).symm, behind_append ▸ refuses⟩

theorem Fails.stops (fails : answers.Fails calls stop) :
    stop = .blocked ∨ ∃ what, stop = .fault (.thrown (.runtimeError what)) := by
  obtain ⟨before, call, -, refuses⟩ := fails
  exact refuses.stops

end Answers

/-! ## The wire -/

/-- The bytes that are taken from the calls, by the answers to the writes, each with the
number of connections that were made before. -/
def wire : Nat → List Call → List (Except Nat Nat) → List (Nat × UInt8)
  | _, [], _ => []
  | k, .connect _ _ :: calls, answers => wire (k + 1) calls answers
  | k, .write _ data :: calls, .ok n :: answers =>
      (data.take n).map (k, ·) ++ wire k calls answers
  | k, .write _ _ :: calls, answers => wire k calls answers.tail
  | k, _ :: calls, answers => wire k calls answers

/-- The bytes that are to be sent, each with the number of `CONNECT`s in front of it. -/
def spoken : Nat → List Action → List (Nat × UInt8)
  | _, [] => []
  | k, action :: actions =>
      match action.type with
      | .connect => spoken (k + 1) actions
      | .send => action.data.map (k, ·) ++ spoken k actions
      | _ => spoken k actions

section Append

variable {k : Nat} {calls more : List Call} {answers : List (Except Nat Nat)}

/-- Each write takes an answer. -/
theorem wire_append :
    wire k (calls ++ more) answers = wire k calls answers ++
      wire (k + calls.countP Call.connects) more (answers.drop (calls.countP Call.writes)) := by
  induction calls generalizing k answers with
  | nil => rfl
  | cons call calls ih =>
      cases call with
      | write socket data =>
          have other : ¬ Call.connects (.write socket data) = true := Bool.false_ne_true
          rw [List.countP_cons_of_pos (p := Call.writes) rfl, List.countP_cons_of_neg other]
          rcases answers with _ | ⟨errno | n, answers⟩
          · have rest : wire k (calls ++ more) [] = _ := ih
            rwa [List.drop_nil] at rest ⊢
          · exact ih
          · have rest : wire k (calls ++ more) answers = _ := ih
            change (data.take n).map (k, ·) ++ wire k (calls ++ more) answers = _
            rw [rest, ← List.append_assoc]
            rfl
      | connect socket addr =>
          have rest : wire (k + 1) (calls ++ more) answers = _ := ih
          rw [List.countP_cons_of_pos rfl, Nat.add_comm _ 1, ← Nat.add_assoc]
          exact rest
      | socket family => exact ih
      | read socket => exact ih
      | close socket => exact ih

/-- Calls that write nothing put nothing on the wire. -/
theorem wire_of_no_writes (none : ∀ call ∈ calls, call.writes = false) :
    wire k calls answers = [] := by
  induction calls generalizing k with
  | nil => rfl
  | cons call calls ih =>
      obtain ⟨kind, rest⟩ := List.forall_mem_cons.mp none
      cases call with
      | write socket data => cases kind
      | connect socket addr => exact ih rest
      | socket family => exact ih rest
      | read socket => exact ih rest
      | close socket => exact ih rest

theorem spoken_append (before behind : List Action) :
    spoken k (before ++ behind) =
      spoken k before ++ spoken (k + before.countP fun a => a.type = .connect) behind := by
  induction before generalizing k with
  | nil => rfl
  | cons action before ih =>
      rw [List.cons_append, spoken, spoken]
      split
      · next kind =>
          rw [ih, List.countP_cons_of_pos (by simp [kind]), Nat.add_assoc, Nat.add_comm 1]
      · next kind =>
          rw [ih, List.countP_cons_of_neg (by simp [kind]), List.append_assoc]
      · next connect send =>
          rw [ih, List.countP_cons_of_neg (by simpa using connect)]

end Append

/-- Calls put the bytes of actions on the wire, on as many connections. -/
structure Carries (calls : List Call) (answers : List (Except Nat Nat)) (actions : List Action) :
    Prop where
  connected : calls.countP Call.connects = actions.countP fun a => a.type = .connect
  bytes : ∀ k, wire k calls answers = spoken k actions

section Carries

variable {calls more : List Call} {answers : List (Except Nat Nat)} {before behind : List Action}

theorem Carries.nil : Carries [] answers [] := ⟨rfl, fun _ => rfl⟩

/-- Behind them other calls begin, on what is left of the answers. -/
theorem Carries.wire_append (first : Carries calls answers before) (k : Nat) :
    wire k (calls ++ more) answers = spoken k before ++
      wire (k + before.countP fun a => a.type = .connect) more
        (answers.drop (calls.countP Call.writes)) := by
  rw [PacketReplay.wire_append, first.bytes, first.connected]

theorem Carries.append (first : Carries calls answers before)
    (second : Carries more (answers.drop (calls.countP Call.writes)) behind) :
    Carries (calls ++ more) answers (before ++ behind) where
  connected := by
    rw [List.countP_append, List.countP_append, first.connected, second.connected]
  bytes k := by
    rw [first.wire_append, spoken_append, second.bytes]

end Carries

end PacketReplay
