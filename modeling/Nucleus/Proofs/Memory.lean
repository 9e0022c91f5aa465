import Nucleus.Proofs.Buffers
import Nucleus.Proofs.Oblivious
import Nucleus.Proofs.Refusal

/-!
# Nucleus.Proofs.Memory

What requests do to the memory of processes. Two of them write there, a record of a process and the
time, and two others read a deadline. Each goes through a buffer at its argument that has been
checked before, so none gets past the user half, and all the rest of memory is neither looked at nor
changed.

* `UserMemory.footprint`: the words of a buffer, or none if it is refused.
* `Request.footprint`: the words that a request is about.
* `Kernel.writes`, `Machine.writes`: what an operation and a request write, and where.
* `serve_remember`: a request on other memory that has the same words in its footprint.
* `Machine.Touches`, `touches_serve`: a request reads and writes no other words than its own.
* `Machine.Delivers`: the words in the buffer after a request, and all the others.
* `memory_effects`: which requests change memory, and what can be read there afterwards.
-/

namespace Nucleus

/-! ### Words of memory -/

namespace UserMemory

variable {m m' : UserMemory} {a addr words : Word} {addrs ws : List Word}

/-- The addresses of the words of a buffer; a buffer that is refused has none. -/
def footprint (addr words : Word) : List Word :=
  match checkBuffer addr words with
  | .ok () => touched addr words.toNat
  | .error _ => []

theorem footprint_of_ok (h : checkBuffer addr words = .ok ()) :
    footprint addr words = touched addr words.toNat := by
  unfold footprint
  rw [h]

theorem footprint_of_error {e : BufferError} (h : checkBuffer addr words = .error e) :
    footprint addr words = [] := by
  unfold footprint
  rw [h]

theorem isUserBuffer_of_mem_footprint (h : a ∈ footprint addr words) : IsUserBuffer a 1 := by
  cases hcheck : checkBuffer addr words with
  | error e =>
    rw [footprint_of_error hcheck] at h
    cases h
  | ok u =>
    rw [footprint_of_ok hcheck] at h
    obtain ⟨i, hi, rfl⟩ := mem_touched.1 h
    exact isUserBuffer_wordAt (isUserBuffer_of_checkBuffer hcheck hi) hi

theorem nodup_footprint (addr words : Word) : (footprint addr words).Nodup := by
  cases hcheck : checkBuffer addr words with
  | error e =>
    rw [footprint_of_error hcheck]
    exact List.nodup_nil
  | ok u =>
    rw [footprint_of_ok hcheck]
    rcases checkBuffer_eq_ok_iff.1 hcheck with rfl | hbuffer
    · exact List.nodup_nil
    · exact nodup_touched hbuffer

/-- Reading looks at no other words. -/
theorem read_congr (h : ∀ a ∈ footprint addr words, m.peek a = m'.peek a) :
    m.read addr words = m'.read addr words := by
  unfold read
  cases hcheck : checkBuffer addr words with
  | error e => rfl
  | ok u =>
    rw [footprint_of_ok hcheck] at h
    simp only [load_eq_map, List.map_congr_left h]

theorem peek_poke (m : UserMemory) (addr w a : Word) :
    (m.poke addr w).peek a = if addr = a then w else m.peek a := by
  unfold peek poke
  simp only [List.find?_cons]
  by_cases h : addr = a
  · simp [h]
  · simp only [beq_false_of_ne h, if_neg h]

theorem peek_pokeAll_of_notMem (a : Word) (ws : List (Word × Word)) :
    ∀ m : UserMemory, (∀ w ∈ ws, w.1 ≠ a) → (m.pokeAll ws).peek a = m.peek a := by
  induction ws with
  | nil => exact fun _ _ => rfl
  | cons w rest ih =>
    intro m h
    have hrest := ih (m.poke w.1 w.2) fun w' hw' => h w' (List.mem_cons_of_mem w hw')
    rw [peek_poke, if_neg (h w List.mem_cons_self)] at hrest
    exact hrest

/-- Words that were written at different places are found there. -/
theorem map_peek_pokeAll (addrs : List Word) :
    ∀ (ws : List Word) (m : UserMemory), addrs.Nodup → ws.length = addrs.length →
      addrs.map (m.pokeAll (addrs.zip ws)).peek = ws := by
  induction addrs with
  | nil =>
    intro ws m _ hlength
    exact (List.length_eq_zero_iff.1 hlength).symm
  | cons addr addrs ih =>
    intro ws m hnodup hlength
    cases ws with
    | nil => cases hlength
    | cons w ws =>
      obtain ⟨haddr, hnodup⟩ := List.nodup_cons.1 hnodup
      -- The other words go elsewhere, so the first one stays.
      have hfirst := peek_pokeAll_of_notMem addr (addrs.zip ws) (m.poke addr w) fun w' hw' he =>
        haddr (he ▸ (List.of_mem_zip hw').1)
      rw [peek_poke, if_pos rfl] at hfirst
      rw [List.map_cons, List.zip_cons_cons]
      exact congr (congrArg _ hfirst) (ih ws (m.poke addr w) hnodup (Nat.succ.inj hlength))

/-- Words written to a buffer that is accepted are read back from it. -/
theorem read_pokeAll (m : UserMemory) (hcheck : checkBuffer addr (.ofNat ws.length) = .ok ())
    (hlength : ws.length < 0x10000000000000000) :
    (m.pokeAll ((footprint addr (.ofNat ws.length)).zip ws)).read addr (.ofNat ws.length) =
      .ok ws := by
  have hwords : (UInt64.ofNat ws.length).toNat = ws.length := UInt64.toNat_ofNat_of_lt' hlength
  have hnodup := nodup_footprint addr (.ofNat ws.length)
  unfold read
  rw [hcheck]
  rw [footprint_of_ok hcheck] at hnodup ⊢
  simp only [load_eq_map]
  rw [map_peek_pokeAll _ _ _ hnodup (by rw [length_touched, hwords])]

theorem write_of_error {e : BufferError} (m : UserMemory)
    (hcheck : checkBuffer addr (.ofNat ws.length) = .error e) : m.write addr ws = .error e := by
  unfold write
  rw [hcheck]

theorem write_of_ok (m : UserMemory) (hcheck : checkBuffer addr (.ofNat ws.length) = .ok ())
    (hlength : ws.length < 0x10000000000000000) :
    m.write addr ws = .ok (m.pokeAll ((footprint addr (.ofNat ws.length)).zip ws)) := by
  have hwords : (UInt64.ofNat ws.length).toNat = ws.length := UInt64.toNat_ofNat_of_lt' hlength
  unfold write
  rw [hcheck, footprint_of_ok hcheck, hwords, store_eq_pokeAll]

end UserMemory

/-! ### What requests read -/

/-- The words in the buffer at the argument of a request. -/
def Request.words (q : Request) : Word :=
  match OperationCode.ofWord? q.operation with
  | some .describeProcess => 6
  | some .readClock => 2
  | some .waitTimer => 2
  | some .enterSleep => if q.argument = 0 then 0 else 2
  | _ => 0

/-- The addresses of these words. -/
def Request.footprint (q : Request) : List Word :=
  UserMemory.footprint q.argument q.words

namespace Operation

variable {code : OperationCode} {w : Word} {memory memory' : UserMemory} {op : Operation}
  {q : Request}

theorem deadline_congr (h : ∀ a ∈ UserMemory.footprint w 2, memory.peek a = memory'.peek a) :
    deadline memory w = deadline memory' w := by
  unfold deadline
  rw [UserMemory.read_congr h]

/-- An argument is read from the footprint alone. -/
theorem decode_congr (hcode : OperationCode.ofWord? q.operation = some code)
    (h : ∀ a ∈ q.footprint, memory.peek a = memory'.peek a) :
    decode code q.argument memory = decode code q.argument memory' := by
  unfold Request.footprint Request.words at h
  rw [hcode] at h
  cases code with
  | waitTimer =>
    unfold decode
    simp only [deadline_congr h]
  | enterSleep =>
    unfold decode
    simp only at h ⊢
    split
    · rfl
    · rename_i hsome
      rw [if_neg hsome] at h
      rw [deadline_congr h]
  | _ => rfl

end Operation

/-! ### What requests write -/

namespace Kernel

variable {k : Kernel} {target : ProcessId} {op : Operation} {buffer : Word} {words : List Word}

/-- The words that an operation is to write, and the buffer for them. -/
def output? (k : Kernel) (target : ProcessId) : Operation → Option (Word × List Word)
  | .describeProcess buffer =>
    (k.processes.get? target).map fun p => (buffer, p.record.toWords)
  | .readClock buffer => k.now?.map fun now => (buffer, now.toWords)
  | _ => none

/-- The addresses that an operation writes to, each with the word that is put there. -/
def writes (k : Kernel) (target : ProcessId) (op : Operation) : List (Word × Word) :=
  match k.output? target op with
  | none => []
  | some (buffer, words) => (UserMemory.footprint buffer (.ofNat words.length)).zip words

/-- There are two operations with an output, for a record and for the time. -/
theorem output?_eq_some (h : k.output? target op = some (buffer, words)) :
    (op = .describeProcess buffer ∧
        ∃ p, k.processes.get? target = some p ∧ words = p.record.toWords) ∨
      op = .readClock buffer ∧ ∃ now, k.now? = some now ∧ words = now.toWords := by
  cases op with
  | describeProcess b =>
    obtain ⟨p, hp, h⟩ := Option.map_eq_some_iff.1 h
    cases h
    exact .inl ⟨rfl, p, hp, rfl⟩
  | readClock b =>
    obtain ⟨now, hnow, h⟩ := Option.map_eq_some_iff.1 h
    cases h
    exact .inr ⟨rfl, now, hnow, rfl⟩
  | _ => cases h

theorem length_of_output? (h : k.output? target op = some (buffer, words)) :
    words.length < 0x10000000000000000 := by
  rcases output?_eq_some h with ⟨-, p, -, rfl⟩ | ⟨-, now, -, rfl⟩
  · show 6 < 0x10000000000000000
    decide
  · show 2 < 0x10000000000000000
    decide

/-- The output goes to the buffer at the argument. -/
theorem footprint_of_output? {q : Request} {code : OperationCode} {memory : UserMemory}
    (hcode : OperationCode.ofWord? q.operation = some code)
    (hop : Operation.decode code q.argument memory = .ok op)
    (h : k.output? target op = some (buffer, words)) :
    buffer = q.argument ∧ UInt64.ofNat words.length = q.words := by
  obtain ⟨rfl, hreads⟩ := Operation.decode_eq_ok_iff.1 hop
  unfold Request.words
  rw [hcode]
  rcases output?_eq_some h with ⟨rfl, p, -, rfl⟩ | ⟨rfl, now, -, rfl⟩
  · exact ⟨hreads, rfl⟩
  · exact ⟨hreads, rfl⟩

/-- A buffer that is refused speaks against the output. -/
theorem objection?_of_output? {e : BufferError} (caller : ProcessId)
    (h : k.output? target op = some (buffer, words))
    (hcheck : checkBuffer buffer (.ofNat words.length) = .error e) :
    k.objection? caller target op = some .invalidArgument := by
  have hbuffer : bufferObjection? buffer (.ofNat words.length) = some .invalidArgument := by
    unfold bufferObjection?
    rw [hcheck]
    cases e <;> rfl
  rcases output?_eq_some h with ⟨rfl, p, -, rfl⟩ | ⟨rfl, now, hnow, rfl⟩
  · exact hbuffer
  · unfold objection? clockObjection?
    rw [hnow]
    exact hbuffer

end Kernel

namespace Machine

variable {α : Type} {m n : Machine} {memory : UserMemory} {caller target : ProcessId}
  {op : Operation} {buffer : Word} {words : List Word} {c : Completion} {q : Request}

theorem perform_of_output? (h : m.kernel.output? target op = some (buffer, words)) :
    m.perform caller target op = m.writeOut buffer words := by
  rcases Kernel.output?_eq_some h with ⟨rfl, p, hp, rfl⟩ | ⟨rfl, now, hnow, rfl⟩
  · simp only [perform, describeProcess, hp]
  · simp only [perform, readClock, hnow]

theorem writeOut_remember (m : Machine) (memory : UserMemory) (buffer : Word)
    (hlength : words.length < 0x10000000000000000) :
    (m.remember memory).writeOut buffer words = (m.writeOut buffer words).remember
      (memory.pokeAll ((UserMemory.footprint buffer (.ofNat words.length)).zip words)) := by
  unfold writeOut
  cases hcheck : checkBuffer buffer (.ofNat words.length) with
  | error e =>
    rw [UserMemory.write_of_error _ hcheck, UserMemory.write_of_error _ hcheck,
      UserMemory.footprint_of_error hcheck]
    rfl
  | ok u =>
    rw [UserMemory.write_of_ok _ hcheck hlength, UserMemory.write_of_ok _ hcheck hlength]
    rfl

/-- An operation without an output has nothing to do with memory. -/
theorem perform_remember_of_none (m : Machine) (memory : UserMemory)
    (h : m.kernel.output? target op = none) :
    (m.remember memory).perform caller target op =
      (m.perform caller target op).remember memory := by
  cases op with
  | spawn entry => exact oblivious_spawn entry m memory
  | kill status => exact oblivious_kill status m memory
  | getId => exact oblivious_reply _ m memory
  | getParent => exact oblivious_withCurrent (fun p => oblivious_reply _) m memory
  | watchLine line =>
    exact (oblivious_hookLine line).andThen oblivious_replyOfLine m memory
  | enableLine line =>
    exact (oblivious_setLine line true).andThen oblivious_replyOfLine m memory
  | disableLine line =>
    exact (oblivious_setLine line false).andThen oblivious_replyOfLine m memory
  | describeProcess buffer =>
    have hget : m.kernel.processes.get? target = none := Option.map_eq_none_iff.1 h
    have hget' : (m.remember memory).kernel.processes.get? target = none := hget
    simp only [perform, describeProcess, hget, hget']
    rfl
  | waitProcess => exact oblivious_waitProcess m memory
  | readClock buffer =>
    have hnow : m.kernel.now? = none := Option.map_eq_none_iff.1 h
    have hnow' : (m.remember memory).kernel.now? = none := hnow
    simp only [perform, readClock, hnow, hnow']
    rfl
  | waitTimer deadline => exact oblivious_waitTimer deadline m memory
  | enterSleep deadline => exact oblivious_enterSleep deadline m memory
  | yieldCpu => exact oblivious_schedule.andThen (fun _ => oblivious_succeed) m memory
  | resume => exact oblivious_resume m memory
  | setStack stack => exact oblivious_setStack stack m memory

/-- With other memory an operation comes to the same end, having written the same words. -/
theorem perform_remember (m : Machine) (memory : UserMemory) (op : Operation) :
    (m.remember memory).perform caller target op =
      (m.perform caller target op).remember (memory.pokeAll (m.kernel.writes target op)) := by
  unfold Kernel.writes
  cases hout : m.kernel.output? target op with
  | none => exact perform_remember_of_none m memory hout
  | some r =>
    obtain ⟨buffer, words⟩ := r
    rw [perform_of_output? hout, perform_of_output? (m := m.remember memory) hout]
    exact writeOut_remember m memory buffer (Kernel.length_of_output? hout)

/-- What a request writes. -/
def writes (m : Machine) (q : Request) : List (Word × Word) :=
  match m.asked q with
  | none => []
  | some (target, op) => m.kernel.writes target op

theorem writes_of_understood {p : Process} {code : OperationCode}
    (hp : m.kernel.currentProcess? = some p)
    (hcode : OperationCode.ofWord? q.operation = some code)
    (hu : m.understand p.id code q = .ok (target, op)) :
    m.writes q = m.kernel.writes target op := by
  simp only [writes, asked, hp, hcode, hu]

/-- A request that writes is an operation with an output, which goes to the buffer at its
argument. -/
theorem exists_output_of_writes {w : Word × Word} (h : w ∈ m.writes q) :
    ∃ p code target op words, m.kernel.currentProcess? = some p ∧
      OperationCode.ofWord? q.operation = some code ∧
      m.understand p.id code q = .ok (target, op) ∧
      m.kernel.output? target op = some (q.argument, words) ∧ w ∈ q.footprint.zip words := by
  unfold writes at h
  split at h
  · cases h
  · rename_i target op hasked
    obtain ⟨p, code, hp, hcode, hu⟩ := asked_eq_some hasked
    unfold Kernel.writes at h
    split at h
    · cases h
    · rename_i buffer words hout
      obtain ⟨rfl, hwords⟩ := Kernel.footprint_of_output? hcode (understand_eq_ok hu).2.2 hout
      rw [hwords] at h
      exact ⟨p, code, target, op, words, hp, hcode, hu, hout, h⟩

theorem mem_footprint_of_writes (w : Word × Word) (h : w ∈ m.writes q) : w.1 ∈ q.footprint := by
  obtain ⟨_, _, _, _, _, _, _, _, _, hw⟩ := exists_output_of_writes h
  exact (List.of_mem_zip hw).1

theorem understand_remember {code : OperationCode}
    (hcode : OperationCode.ofWord? q.operation = some code)
    (h : ∀ a ∈ q.footprint, memory.peek a = m.kernel.memory.peek a) :
    (m.remember memory).understand caller code q = m.understand caller code q := by
  have htarget : (m.remember memory).targetOf caller code q.target =
    m.targetOf caller code q.target := rfl
  have hmemory : (m.remember memory).kernel.memory = memory := rfl
  simp only [understand, htarget, hmemory, Operation.decode_congr hcode h]

theorem oblivious_noteRefusal (code : OperationCode) (c : Completion) :
    Oblivious fun m => .done (m.noteRefusal caller code c) c :=
  oblivious_done fun m memory => by
    unfold noteRefusal
    split <;> rfl

/-- With other memory that has the same words in the buffer a request comes to the same end. -/
theorem serve_remember (m : Machine)
    (h : ∀ a ∈ q.footprint, memory.peek a = m.kernel.memory.peek a) :
    (m.remember memory).serve q = (m.serve q).remember (memory.pokeAll (m.writes q)) := by
  have hcurrent : (m.remember memory).kernel.currentProcess? = m.kernel.currentProcess? := rfl
  cases hp : m.kernel.currentProcess? with
  | none =>
    unfold serve withCurrent
    rw [hcurrent, hp]
    rfl
  | some p =>
    cases hcode : OperationCode.ofWord? q.operation with
    | none =>
      have hnothing : m.writes q = [] := by simp only [writes, asked, hp, hcode]
      unfold serve withCurrent
      rw [hcurrent, hp, hnothing]
      simp only [hcode]
      rfl
    | some code =>
      have hsame : (m.remember memory).understand p.id code q = m.understand p.id code q :=
        understand_remember hcode h
      cases hu : m.understand p.id code q with
      | error e =>
        have hnothing : m.writes q = [] := by simp only [writes, asked, hp, hcode, hu]
        rw [serve_of_not_understood hp hcode hu,
          serve_of_not_understood (m := m.remember memory) hp hcode (hsame.trans hu), hnothing]
        rfl
      | ok r =>
        rw [serve_of_understood hp hcode hu,
          serve_of_understood (m := m.remember memory) hp hcode (hsame.trans hu),
          writes_of_understood hp hcode hu]
        -- What is noted before and after the operation has nothing to do with memory.
        let asking := m.note (.requested p.id code q.target q.argument)
        have hperform : (asking.remember memory).perform p.id r.1 r.2 =
            (asking.perform p.id r.1 r.2).remember
              (memory.pokeAll (asking.kernel.writes r.1 r.2)) :=
          asking.perform_remember memory r.2
        refine Eq.trans (congrArg (Outcome.andThen · _) hperform) ?_
        exact remember_andThen _ (oblivious_noteRefusal code)

/-- A call of the kernel reads no words but those at some addresses, and writes to no others: on any
memory with the same words there it comes to the same end, and leaves the rest as it was. -/
def Touches (m : Machine) (op : Machine → Outcome α) (addrs : List Word) : Prop :=
  ∃ written : List (Word × Word), (∀ w ∈ written, w.1 ∈ addrs) ∧
    ∀ memory : UserMemory, (∀ a ∈ addrs, memory.peek a = m.kernel.memory.peek a) →
      (m.remember memory).withKernel op = (m.withKernel op).remember (memory.pokeAll written)

theorem withKernel_remember {op : Machine → Outcome α} {memory' : UserMemory}
    (h : ∀ locks, op ({ m with locks }.remember memory) = (op { m with locks }).remember memory') :
    (m.remember memory).withKernel op = (m.withKernel op).remember memory' := by
  have hinstalled : (m.remember memory).installed = m.installed := rfl
  have hslot : (m.remember memory).locks.slot = m.locks.slot := rfl
  unfold withKernel withSlot
  rw [hinstalled, hslot]
  split
  · split
    · rfl
    · refine Eq.trans (congrArg (Outcome.andThen · _) (h { m.locks with slot := true })) ?_
      exact remember_andThen _ fun _ => oblivious_done fun _ _ => rfl
  · exact h m.locks

theorem touches_serve (m : Machine) (q : Request) :
    m.Touches (fun m => m.serve q) q.footprint :=
  ⟨m.writes q, mem_footprint_of_writes, fun _ h =>
    withKernel_remember fun locks => serve_remember { m with locks } h⟩

/-- After a request memory has the words that it wrote. -/
theorem memory_of_serve (h : m.withKernel (fun m => m.serve q) = .done n c) :
    n.kernel.memory = m.kernel.memory.pokeAll (m.writes q) := by
  have hsame : m.withKernel (fun m => m.serve q) =
      (m.withKernel fun m => m.serve q).remember (m.kernel.memory.pokeAll (m.writes q)) := by
    -- A machine with its own memory is the machine itself.
    have hthis : m.remember m.kernel.memory = m := rfl
    refine Eq.trans (congrArg (withKernel · fun m => m.serve q) hthis.symm) ?_
    exact withKernel_remember fun locks => serve_remember { m with locks } fun _ _ => rfl
  rw [h] at hsame
  injection hsame with hn
  rw [hn]
  rfl

/-! ### What can be read afterwards -/

/-- A request is refused if the buffer at its argument is, and else it succeeds: the words can be
read from the buffer, and all others are what they were. -/
def Delivers (m : Machine) (caller : ProcessId) (q : Request) (words : List Word) : Prop :=
  match checkBuffer q.argument (.ofNat words.length) with
  | .error _ => m.Refuses caller q .invalidArgument
  | .ok () => ∃ n, m.withKernel (fun m => m.serve q) = .done n (.ready (.value 0)) ∧
      n.kernel.memory.read q.argument (.ofNat words.length) = .ok words ∧
        ∀ a ∉ UserMemory.touched q.argument words.length,
          n.kernel.memory.peek a = m.kernel.memory.peek a

theorem Delivers.refused {e : BufferError} (h : m.Delivers caller q words)
    (hcheck : checkBuffer q.argument (.ofNat words.length) = .error e) :
    m.Refuses caller q .invalidArgument := by
  unfold Delivers at h
  rw [hcheck] at h
  exact h

theorem Delivers.delivered (h : m.Delivers caller q words)
    (hcheck : checkBuffer q.argument (.ofNat words.length) = .ok ()) :
    ∃ n, m.withKernel (fun m => m.serve q) = .done n (.ready (.value 0)) ∧
      n.kernel.memory.read q.argument (.ofNat words.length) = .ok words := by
  unfold Delivers at h
  rw [hcheck] at h
  obtain ⟨n, hn, hread, -⟩ := h
  exact ⟨n, hn, hread⟩

/-- An operation with an output comes to its buffer: it is refused for it, or it writes to it. -/
theorem delivers_of_output? {p : Process} {code : OperationCode} (hm : Reachable m)
    (hp : m.kernel.currentProcess? = some p)
    (hcode : OperationCode.ofWord? q.operation = some code)
    (hu : m.understand p.id code q = .ok (target, op))
    (hout : m.kernel.output? target op = some (q.argument, words)) :
    m.Delivers p.id q words := by
  have hlength := Kernel.length_of_output? hout
  unfold Delivers
  cases hcheck : checkBuffer q.argument (.ofNat words.length) with
  | error e =>
    exact refuses_of_objection hm hp hcode hu (Kernel.objection?_of_output? p.id hout hcheck)
  | ok u =>
    obtain ⟨n, hn, -⟩ := withKernel_serve_of_perform (c := .ready (.value 0))
      (P := fun _ _ => True) hm hp hcode hu fun w hw _ => by
        rw [← hw] at hout
        rw [perform_of_output? hout, writeOut, UserMemory.write_of_ok _ hcheck hlength]
        exact ⟨_, rfl, trivial⟩
    have hwrites : m.writes q =
        (UserMemory.footprint q.argument (.ofNat words.length)).zip words := by
      rw [writes_of_understood hp hcode hu]
      simp only [Kernel.writes, hout]
    have hmemory := memory_of_serve hn
    rw [hwrites] at hmemory
    refine ⟨n, hn, ?_, fun a ha => ?_⟩
    · rw [hmemory]
      exact UserMemory.read_pokeAll _ hcheck hlength
    · rw [hmemory]
      refine UserMemory.peek_pokeAll_of_notMem a _ _ fun w hw he => ha ?_
      have hmem := (List.of_mem_zip hw).1
      rwa [UserMemory.footprint_of_ok hcheck, UInt64.toNat_ofNat_of_lt' hlength, he] at hmem

/-- A request about a process delivers the record of its target as it is at the request, if there is
such a process, and is refused if there is none. -/
def Describes (m : Machine) (caller : ProcessId) (q : Request) : Prop :=
  match m.kernel.resolveTarget caller q.target with
  | .error e => m.Refuses caller q e
  | .ok target => ∃ p, m.kernel.processes.get? target = some p ∧
      m.Delivers caller q p.record.toWords ∧
        ProcessRecord.ofWords? p.record.toWords = some {
          id := target
          state := p.state
          userStack := p.space.userStack.word
          kernelStack := p.space.kernelStack.word
          pageDirectory := p.space.pageDirectory.word
          parent := p.parent }

/-- A request for the time delivers it, if there is a clock and a process that the request is about,
and is refused if there is none. -/
def TellsTime (m : Machine) (caller : ProcessId) (q : Request) : Prop :=
  match m.kernel.resolveTarget caller q.target, m.kernel.now? with
  | .error e, _ => m.Refuses caller q e
  | .ok _, none => m.Refuses caller q .notFound
  | .ok _, some now => m.Delivers caller q now.toWords ∧ Instant.ofWords? now.toWords = some now

theorem describes_of_reachable (hm : Reachable m) (hc : m.kernel.current = some caller)
    (hcode : OperationCode.ofWord? q.operation = some .describeProcess) :
    m.Describes caller q := by
  obtain ⟨o, ho, rfl, _⟩ := (bound_of_reachable hm).currentProcess? hc
  unfold Describes
  cases htarget : m.kernel.resolveTarget o.id q.target with
  | error e => exact refuses_of_resolveTarget hm hc hcode rfl htarget
  | ok target =>
    obtain ⟨p, hp⟩ := Option.isSome_iff_exists.1
      (isSome_of_resolveTarget (isSome_of_currentProcess? ho) htarget)
    obtain rfl : p.id = target := Registry.id_of_get? hp
    have hu : m.understand o.id .describeProcess q =
        .ok (p.id, .describeProcess q.argument) :=
      understand_of_resolveTarget rfl htarget rfl
    have hout : m.kernel.output? p.id (.describeProcess q.argument) =
        some (q.argument, p.record.toWords) := by
      simp only [Kernel.output?, hp, Option.map_some]
    exact ⟨p, hp, delivers_of_output? hm ho hcode hu hout,
      ProcessRecord.ofWords?_eq_some_iff.2 rfl⟩

theorem tellsTime_of_reachable (hm : Reachable m) (hc : m.kernel.current = some caller)
    (hcode : OperationCode.ofWord? q.operation = some .readClock) : m.TellsTime caller q := by
  obtain ⟨o, ho, rfl, _⟩ := (bound_of_reachable hm).currentProcess? hc
  unfold TellsTime
  cases htarget : m.kernel.resolveTarget o.id q.target with
  | error e => exact refuses_of_resolveTarget hm hc hcode rfl htarget
  | ok target =>
    have hu : m.understand o.id .readClock q = .ok (target, .readClock q.argument) :=
      understand_of_resolveTarget rfl htarget rfl
    cases hnow : m.kernel.now? with
    | none =>
      have hobjection : m.kernel.objection? o.id target (.readClock q.argument) =
          some .notFound := by
        unfold Kernel.objection? Kernel.clockObjection?
        rw [hnow]
        exact Option.some_or
      exact refuses_of_objection hm ho hcode hu hobjection
    | some now =>
      have hout : m.kernel.output? target (.readClock q.argument) =
          some (q.argument, now.toWords) := by
        simp only [Kernel.output?, hnow, Option.map_some]
      exact ⟨delivers_of_output? hm ho hcode hu hout, rfl⟩

theorem Delivers.succeeds (h : m.Delivers caller q words)
    (hn : m.withKernel (fun m => m.serve q) = .done n c)
    (hchanged : n.kernel.memory ≠ m.kernel.memory) : c = .ready (.value 0) := by
  cases hcheck : checkBuffer q.argument (.ofNat words.length) with
  | error e =>
    have hrefused := hn.symm.trans (h.refused hcheck)
    cases hrefused
    exact absurd rfl hchanged
  | ok u =>
    obtain ⟨n', hn', -⟩ := h.delivered hcheck
    cases hn.symm.trans hn'
    rfl

/-- A request that writes is one of two, and it delivers what it writes. -/
theorem delivers_of_writes {w : Word × Word} (hm : Reachable m) (h : w ∈ m.writes q) :
    (OperationCode.ofWord? q.operation = some .describeProcess ∨
      OperationCode.ofWord? q.operation = some .readClock) ∧
    ∃ caller words, m.Delivers caller q words := by
  obtain ⟨p, code, target, op, words, hp, hcode, hu, hout, -⟩ := exists_output_of_writes h
  refine ⟨?_, p.id, words, delivers_of_output? hm hp hcode hu hout⟩
  obtain rfl := (Operation.decode_eq_ok_iff.1 (understand_eq_ok hu).2.2).1
  rw [hcode]
  rcases Kernel.output?_eq_some hout with ⟨rfl, -⟩ | ⟨rfl, -⟩
  · exact .inl rfl
  · exact .inr rfl

/-- **What requests do to memory.** Whatever is asked for, with whatever arguments, no words are
read or written but those of the buffer that the request is about, and each of them lies in the user
half. Memory is changed only by a request for a record or for the time that succeeds. Such a request
succeeds if its target exists, the buffer is accepted and, for the time, there is a clock; then
exactly the words of the buffer are written, and what is read back from them is the record of the
target, or the time, as it was when it was asked for. Six words are read as a record just if they
are the words of one. -/
theorem memory_effects (hm : Reachable m) (q : Request) :
    (∀ a ∈ q.footprint, IsUserBuffer a 1) ∧
    m.Touches (fun m => m.serve q) q.footprint ∧
    (∀ n c, m.withKernel (fun m => m.serve q) = .done n c → n.kernel.memory ≠ m.kernel.memory →
      c = .ready (.value 0) ∧
        (OperationCode.ofWord? q.operation = some .describeProcess ∨
          OperationCode.ofWord? q.operation = some .readClock)) ∧
    (∀ caller, m.kernel.current = some caller →
      (OperationCode.ofWord? q.operation = some .describeProcess → m.Describes caller q) ∧
      (OperationCode.ofWord? q.operation = some .readClock → m.TellsTime caller q)) ∧
    ∀ ws r, ProcessRecord.ofWords? ws = some r ↔ ws = r.toWords := by
  refine ⟨fun a ha => UserMemory.isUserBuffer_of_mem_footprint ha, touches_serve m q,
    fun n c hn hchanged => ?_, fun caller hc => ⟨describes_of_reachable hm hc,
      tellsTime_of_reachable hm hc⟩, fun ws r => ProcessRecord.ofWords?_eq_some_iff⟩
  have hwrites : m.writes q ≠ [] := by
    intro hnothing
    have hmemory := memory_of_serve hn
    rw [hnothing] at hmemory
    exact hchanged hmemory
  obtain ⟨w, hw⟩ := List.exists_mem_of_ne_nil _ hwrites
  obtain ⟨hcode, caller, words, hdelivers⟩ := delivers_of_writes hm hw
  exact ⟨hdelivers.succeeds hn hchanged, hcode⟩

/-- A request of the process with the CPU for the record of a process. -/
def describeAt (target : ProcessId) (buffer : Word) : Request :=
  ⟨target, OperationCode.describeProcess.toWord, buffer, 0⟩

/-- The first process asks for the record of its child in the last six words of the user half, where
it can be read afterwards, and is refused it one word further on. -/
theorem memory_effects_last : ∃ m n p,
    trial (.boot trialEntry :: calls 0 .spawn 0x2000) = .done m () ∧ Reachable m ∧
    m.kernel.processes.get? 2 = some p ∧ p.parent = 1 ∧
    m.withKernel (fun m => m.serve (describeAt 2 0x7FFFFFFFFFD0)) = .done n (.ready (.value 0)) ∧
    n.kernel.memory.read 0x7FFFFFFFFFD0 6 = .ok p.record.toWords ∧
    m.Refuses 1 (describeAt 2 0x7FFFFFFFFFD8) .invalidArgument := by
  obtain ⟨m, hm, hcheck⟩ := Outcome.exists_of_endsIn
    (trial (.boot trialEntry :: calls 0 .spawn 0x2000))
    (fun m => m.kernel.current == some 1 && decide (m.kernel.resolveTarget 1 2 = .ok 2) &&
      (m.kernel.processes.get? 2).any fun p => p.parent == 1)
    (by decide +kernel)
  simp only [Bool.and_eq_true, beq_iff_eq, decide_eq_true_eq, Option.any_eq_true] at hcheck
  obtain ⟨⟨hc, htwo⟩, p, hp, hparent⟩ := hcheck
  have hdelivers : ∀ buffer, m.Delivers 1 (describeAt 2 buffer) p.record.toWords := by
    intro buffer
    have h := ((memory_effects (.trial hm) (describeAt 2 buffer)).2.2.2.1 1 hc).1 rfl
    unfold Describes at h
    rw [show (describeAt 2 buffer).target = 2 from rfl, htwo] at h
    obtain ⟨p', hp', hdelivers, -⟩ := h
    cases hp.symm.trans hp'
    exact hdelivers
  have hlast : checkBuffer 0x7FFFFFFFFFD0 6 = .ok () := rfl
  have hbehind : checkBuffer 0x7FFFFFFFFFD8 6 = .error (.badAddress 0x7FFFFFFFFFD8) := rfl
  obtain ⟨n, hn, hread⟩ := (hdelivers 0x7FFFFFFFFFD0).delivered hlast
  exact ⟨m, n, p, hm, .trial hm, hp, hparent, hn, hread, (hdelivers _).refused hbehind⟩

end Machine
end Nucleus
