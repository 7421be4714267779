import PacketReplay.Replay.HttpCalls

/-!
# What an action does

The calls of a `CONNECT`, and the loops of a `SEND` and of a `RECV`: which calls they make, on
which answers each of them is stopped, and what they change of the client.
-/

namespace PacketReplay.HttpReplayClient

open Lib

variable (c : HttpReplayClient)

/-! ## `CONNECT` -/

/-- A socket is opened, or the call of `socket` is stopped. -/
theorem openSocket_cases :
    (∃ e socket, c.answers.Refuses (.socket c.family) e ∧
        c.openSocket = (.error e, { c.called (.socket c.family) with
          answers := c.answers.behind [.socket c.family]
          socket := socket })) ∨
      ∃ descriptor : Nat, c.openSocket = (.ok (), { c.called (.socket c.family) with
        answers := c.answers.behind [.socket c.family]
        socket := descriptor }) := by
  rcases c with ⟨_, _, socket, _, _, ⟨_ | ⟨errno | descriptor, _⟩, _, _, _, _⟩, _, _⟩
  · exact Or.inl ⟨_, socket, Or.inl ⟨rfl, rfl⟩, rfl⟩
  · exact Or.inl ⟨_, -1, Or.inr ⟨errno, rfl, rfl⟩, rfl⟩
  · exact Or.inr ⟨descriptor, rfl⟩

/-- The socket is connected, or the call of `connect` is stopped. -/
theorem connectSocket_cases :
    (∃ e, c.answers.Refuses (.connect c.socket c.testSockAddr) e ∧
        c.connectSocket = (.error e, { c.called (.connect c.socket c.testSockAddr) with
          answers := c.answers.behind [.connect c.socket c.testSockAddr] })) ∨
      c.answers.connect.head? = some (.ok ()) ∧
        c.connectSocket = (.ok (), { c.called (.connect c.socket c.testSockAddr) with
          answers := c.answers.behind [.connect c.socket c.testSockAddr] }) := by
  rcases c with ⟨_, _, _, _, _, ⟨_, _ | ⟨errno | _, _⟩, _, _, _⟩, _, _⟩
  · exact Or.inl ⟨_, Or.inl ⟨rfl, rfl⟩, rfl⟩
  · exact Or.inl ⟨_, Or.inr ⟨errno, rfl, rfl⟩, rfl⟩
  · exact Or.inr ⟨rfl, rfl⟩

/-- The calls of a `CONNECT`. -/
def connecting (descriptor : Nat) : List Call :=
  [.socket c.family, .connect descriptor c.testSockAddr]

/-- The client behind them. -/
def connected (descriptor : Nat) : HttpReplayClient := { c with
  calls := c.calls ++ c.connecting descriptor
  answers := c.answers.behind (c.connecting descriptor)
  socket := descriptor }

/-- A `CONNECT` is stopped at the call of `socket`, or at that of `connect` on the
descriptor, or connects it. -/
theorem connect_cases :
    (∃ e socket, c.answers.Fails [.socket c.family] e ∧
        c.connect = (.error e, { c with
          calls := c.calls ++ [.socket c.family]
          answers := c.answers.behind [.socket c.family]
          socket := socket })) ∨
      ∃ descriptor,
        (∃ e, c.answers.Fails (c.connecting descriptor) e ∧
            c.connect = (.error e, c.connected descriptor)) ∨
          c.answers.connect.head? = some (.ok ()) ∧
            c.connect = (.ok (), c.connected descriptor) := by
  rcases c.openSocket_cases with ⟨e, socket, refuses, opened⟩ | ⟨descriptor, opened⟩
  · rw [connect, opened]
    exact Or.inl ⟨e, socket, .singleton refuses, rfl⟩
  · have goes : c.connect = connectSocket { c.called (.socket c.family) with
        answers := c.answers.behind [.socket c.family]
        socket := descriptor } := by
      rw [connect, opened]
      rfl
    have both : c.connected descriptor = { c with
        calls := c.calls ++ [.socket c.family] ++ [.connect descriptor c.testSockAddr]
        answers := (c.answers.behind [.socket c.family]).behind [.connect descriptor c.testSockAddr]
        socket := descriptor } := by
      rw [connected, connecting, List.append_cons, ← List.singleton_append, Answers.behind_append]
    refine Or.inr ⟨descriptor, ?_⟩
    rw [goes, both]
    rcases connectSocket_cases { c.called (.socket c.family) with
        answers := c.answers.behind [.socket c.family]
        socket := descriptor } with ⟨e, refuses, stopped⟩ | ⟨answer, finished⟩
    · exact Or.inl ⟨e, .prepend [.socket c.family] (.singleton refuses), stopped⟩
    · exact Or.inr ⟨answer, finished⟩

/-! ## `SEND` -/

/-- What the loop around `write` has done on answers to it: it has written the data, or it
is stopped behind a part of them. -/
structure Writes (data : Bytes) (answers : List (Except Nat Nat)) (new : List Call) (r : Result) :
    Prop where
  mine : ∀ call ∈ new, ∃ left, call = .write c.socket left
  part : ∀ k, wire k new answers <+: data.map (k, ·)
  ends : (r = (.ok (), { c with
        calls := c.calls ++ new
        answers.write := answers.drop new.length }) ∧
      ∀ k, wire k new answers = data.map (k, ·)) ∨
    ∃ e, r = (.error e, { c with calls := c.calls ++ new }) ∧
      Answers.Fails { c.answers with write := answers } new e

variable {c}

/-- There is nothing to write. -/
theorem Writes.nil (answers : List (Except Nat Nat)) :
    Writes c [] answers [] (.ok (), { c with answers.write := answers }) where
  mine call mem := by cases mem
  part k := List.prefix_rfl
  ends := by
    rw [List.append_nil]
    exact Or.inl ⟨rfl, fun k => rfl⟩

/-- The first call is stopped. -/
theorem Writes.refused {data : Bytes} {answers : List (Except Nat Nat)} {e : Stop}
    (refuses : Answers.Refuses { c.answers with write := answers } (.write c.socket data) e)
    (none : ∀ k, wire k [.write c.socket data] answers = []) :
    Writes c data answers [.write c.socket data]
      (.error e, c.called (.write c.socket data)) where
  mine _ mem := ⟨data, List.mem_singleton.mp mem⟩
  part k := none k ▸ List.nil_prefix
  ends := Or.inr ⟨e, rfl, .singleton refuses⟩

/-- The first call has written a part. -/
theorem Writes.cons {data : Bytes} {n : Nat} {answers : List (Except Nat Nat)} {new : List Call}
    {r : Result}
    (writes : Writes (c.called (.write c.socket data)) (data.drop n) answers new r) :
    Writes c data (.ok n :: answers) (.write c.socket data :: new) r := by
  have whole (k : Nat) : (data.take n).map (k, ·) ++ (data.drop n).map (k, ·) =
      data.map (k, ·) := by
    rw [← List.map_append, List.take_append_drop]
  refine ⟨List.forall_mem_cons.mpr ⟨⟨data, rfl⟩, writes.mine⟩, fun k => ?_, ?_⟩
  · rw [← whole k]
    exact (List.prefix_append_right_inj _).mpr (writes.part k)
  · rw [List.append_cons]
    rcases writes.ends with ⟨finished, bytes⟩ | ⟨e, stopped, fails⟩
    · refine Or.inl ⟨finished, fun k => ?_⟩
      rw [← whole k, ← bytes k]
      rfl
    · exact Or.inr ⟨e, stopped, .prepend [.write c.socket data] fails⟩

variable (c)

theorem exists_writes (data : Bytes) (answers : List (Except Nat Nat)) :
    ∃ new, Writes c data answers new (c.writeAll data answers) := by
  induction answers generalizing c data with
  | nil =>
      rw [writeAll]
      split
      · next none => exact none ▸ ⟨[], .nil []⟩
      · exact ⟨_, .refused (Or.inl (Or.inl ⟨rfl, rfl⟩)) fun k => rfl⟩
  | cons answer answers ih =>
      rw [writeAll]
      split
      · next none => exact none ▸ ⟨[], .nil _⟩
      · rcases answer with errno | _ | n
        · exact ⟨_, .refused (Or.inl (Or.inr ⟨errno, rfl, rfl⟩)) fun k => rfl⟩
        · exact ⟨_, .refused (Or.inr ⟨rfl, rfl⟩) fun k => rfl⟩
        · obtain ⟨new, writes⟩ := ih (c.called (.write c.socket data)) (data.drop (n + 1))
          exact ⟨_, writes.cons⟩

/-- What a `SEND` has done: it has written its data, and the processors are reset, or it is
stopped behind a part of them. -/
structure Sends (data : Bytes) (new : List Call) (r : Result) : Prop where
  mine : ∀ call ∈ new, ∃ left, call = .write c.socket left
  part : ∀ k, wire k new c.answers.write <+: data.map (k, ·)
  ends : (r = (.ok (), { c with
        calls := c.calls ++ new
        answers := c.answers.behind new
        expectedProcessor := c.expectedProcessor.reset
        testProcessor := c.testProcessor.reset }) ∧
      ∀ k, wire k new c.answers.write = data.map (k, ·)) ∨
    ∃ e, r = (.error e, { c with calls := c.calls ++ new }) ∧ c.answers.Fails new e

theorem exists_sends (data : Bytes) : ∃ new, Sends c data new (c.send data) := by
  obtain ⟨new, writes⟩ := c.exists_writes data c.answers.write
  refine ⟨new, writes.mine, writes.part, ?_⟩
  have kinds : ∀ call ∈ new, call.writes = true := by
    intro call mem
    obtain ⟨left, rfl⟩ := writes.mine call mem
    rfl
  rw [send]
  rcases writes.ends with ⟨finished, bytes⟩ | ⟨e, stopped, fails⟩
  · rw [finished, Answers.behind_of_writes kinds]
    exact Or.inl ⟨rfl, bytes⟩
  · rw [stopped]
    exact Or.inr ⟨e, rfl, fails⟩

/-! ## `RECV` -/

variable {c} {d e : HttpReplayClient}

/-- What a `RECV` changes. -/
def Reads (c d : HttpReplayClient) : Prop :=
  ∃ new answers expected test output, d = { c with
    calls := c.calls ++ new
    answers.read := answers
    expectedProcessor := expected
    testProcessor := test
    output := output } ∧ ∀ call ∈ new, call = .read c.socket

theorem Reads.trans (first : Reads c d) (second : Reads d e) : Reads c e := by
  obtain ⟨new, answers, expected, test, output, rfl, reads⟩ := first
  obtain ⟨more, left, also, other, text, rfl, others⟩ := second
  refine ⟨new ++ more, left, also, other, text, ?_, List.forall_mem_append.mpr ⟨reads, others⟩⟩
  rw [← List.append_assoc]

theorem Reads.andThen {r : Result} {next : HttpReplayClient → Result} (first : Reads c r.2)
    (second : ∀ d, Reads d (next d).2) : Reads c (r.andThen next).2 := by
  rw [Result.andThen.eq_def]
  split
  · exact first.trans (second _)
  · exact first

variable (c)

/-- No call, and other states of the processors and of the output. -/
theorem reads_states (answers : List (Except Nat Bytes)) (expected test : HttpResponseProcessor)
    (output : Bytes) : Reads c { c with
      answers.read := answers
      expectedProcessor := expected
      testProcessor := test
      output := output } :=
  ⟨[], answers, expected, test, output, by rw [List.append_nil], fun _ mem => by cases mem⟩

theorem reads_refl : Reads c c := c.reads_states _ _ _ _

theorem reads_expect (data : Bytes) : Reads c (c.expect data).2 := by
  rw [expect]
  split
  · exact c.reads_refl
  · exact c.reads_refl
  · split <;> exact c.reads_states _ _ _ _

theorem reads_receive (data : Bytes) : Reads c (c.receive data).2 := by
  rw [receive]
  split <;> exact c.reads_states _ _ _ _

theorem reads_called : Reads c (c.called (.read c.socket)) :=
  ⟨[_], _, _, _, _, rfl, fun _ => List.mem_singleton.mp⟩

theorem reads_readResponse (answers : List (Except Nat Bytes)) :
    Reads c (c.readResponse answers).2 := by
  induction answers generalizing c with
  | nil =>
      unfold readResponse
      split
      · exact c.reads_refl
      · exact c.reads_states _ _ _ _
      · exact c.reads_called
  | cons answer answers ih =>
      unfold readResponse
      split
      · exact c.reads_refl
      · exact c.reads_states _ _ _ _
      · split
        · exact c.reads_called
        · exact c.reads_called
        · exact (c.reads_called.trans (reads_receive _ _)).andThen ih

theorem reads_check : Reads c c.check.2 := by
  rw [check]
  split
  · exact c.reads_refl
  · exact c.reads_refl
  · split
    · exact c.reads_refl
    · split
      · exact c.reads_refl
      · exact c.reads_states _ _ _ _

theorem reads_recv (data : Bytes) : Reads c (c.recv data).2 :=
  ((c.reads_expect data).andThen fun d => d.reads_readResponse d.answers.read).andThen reads_check

end PacketReplay.HttpReplayClient
