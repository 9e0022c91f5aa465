import Nucleus.Proofs.Frames

/-!
# Nucleus.Proofs.Answers

Answers are read back as they were meant. A value and an error are told apart in one word, in which
the three greatest words are the errors; so no identifier may ever be one of these, although the
limit on identifiers can be as great as the greatest word but one. What keeps them small are the
frames: each process has one, an address has 52 bits, and the least identifier that is free is
chosen, so none is greater than twice the number of processes and one more.

* `Kernel.Within`: no process and no parent of a process has an identifier above a bound.
* `toNat_nextId?_le`, `within_acts`: the bound that comes from the number of frames, on every run.
* `Machine.Tells`, `serve_tells`: which values a request can be answered with.
* `answers_read_back`: what that means for the answers. The one word that may be taken for an error
  is an exit status, which is not the answer of a request that was completed.
-/

namespace Nucleus

theorem Reply.decode_encode_error (e : CallError) : decode (encode (.error e)) = .error e := by
  unfold decode encode
  rw [CallError.ofCode?_eq_some_iff.2 rfl]

/-- A value below the codes of the errors is read back. -/
theorem Reply.decode_encode_value {w : Word} (h : w.toNat < 0xFFFFFFFFFFFFFFFD) :
    decode (encode (.value w)) = .value w := by
  have hnone : CallError.ofCode? w = none := by
    rw [Option.eq_none_iff_forall_ne_some]
    intro e he
    rw [CallError.ofCode?_eq_some_iff.1 he] at h
    cases e <;> exact absurd h (by decide)
  unfold decode encode
  simp only
  rw [hnone]

namespace Kernel

variable {k : Kernel} {id : ProcessId} {bound : Nat}

/-- No process has an identifier above a bound, and no parent of a process has. -/
def Within (k : Kernel) (bound : Nat) : Prop :=
  ∀ id p, k.processes.get? id = some p → id.toNat ≤ bound ∧ p.parent.toNat ≤ bound

theorem Fresh.within (h : k.Fresh) (bound : Nat) : k.Within bound := by
  intro id p hp
  rw [h.get?] at hp
  cases hp

/-- Among the candidates for an identifier is one more than there are identifiers in use, and each
process puts two of them in use. -/
theorem toNat_nextId?_le (h : k.nextId? = some id) : id.toNat ≤ 2 * k.processes.size + 1 := by
  unfold nextId? at h
  split at h
  · unfold leastFree? at h
    obtain ⟨i, hi, rfl⟩ := List.mem_map.1 (List.mem_of_find?_eq_some h)
    have hlt := List.mem_range.1 hi
    have hle : (UInt64.ofNat (i + 1)).toNat ≤ i + 1 := by
      rw [UInt64.toNat_ofNat']
      exact Nat.mod_le _ _
    have hnamed : k.namedIds.length = 2 * k.processes.size := by
      unfold namedIds Registry.ids Registry.size
      rw [List.length_append, List.length_map, List.length_map]
      omega
    omega
  · cases h

end Kernel

namespace Machine

variable {m n : Machine} {caller target : ProcessId} {op : Operation} {c : Completion}
  {bound : Nat} {w : Word}

/-! ### Identifiers -/

theorem within_turnover {a : Action} (h : m.Turnover a n) (hb : m.kernel.Bound)
    (hm : m.kernel.Within bound) (hroom : 2 * m.kernel.processes.size + 1 ≤ bound) :
    n.kernel.Within bound := by
  intro id q hq
  rcases h.came hq with ⟨p, hp, hpq⟩ | ⟨hid, hparent⟩
  · rw [hpq.parent]
    exact hm id p hp
  · refine ⟨Nat.le_trans (Kernel.toNat_nextId?_le hid) hroom, ?_⟩
    generalize q.parent = parent at hparent
    cases hparent with
    | booted => exact Nat.zero_le _
    | spawned hc _ =>
      obtain ⟨p, hp⟩ := hb.current hc
      exact (hm parent p hp).1

/-- The number of frames bounds the identifiers of a run. -/
theorem within_acts {as : List Action} {first : Word} {limit : PhysAddr}
    (hbound : 2 * ((limit.word.toNat - first.toNat) / 4096) + 1 ≤ bound) :
    ∀ {m n : Machine} {count : Nat}, Reachable m → m.kernel.Issues first limit count →
      m.kernel.Within bound → m.acts as = .done n () → n.kernel.Within bound := by
  induction as with
  | nil =>
    intro m n count _ _ hm h
    cases h
    exact hm
  | cons a rest ih =>
    intro m n count hreach hissues hm h
    obtain ⟨w, u, hw, hn⟩ := Outcome.andThen_eq_done_iff.1 h
    have hturn := turnover_acted (act_done hw)
    obtain ⟨count', hissues'⟩ := issues_turnover hturn hissues
    have hframes := hissues.available
    have hroom : 2 * m.kernel.processes.size + 1 ≤ bound := by omega
    exact ih (hreach.act hw) hissues'
      (within_turnover hturn (bound_of_reachable hreach) hm hroom) hn

/-! ### Values -/

/-- What the caller of an operation can be told besides errors. -/
inductive Tells (m : Machine) (caller : ProcessId) : Word → Prop where
  | nothing : Tells m caller 0
  | caller : Tells m caller caller
  | parent {p : Process} : m.kernel.currentProcess? = some p → Tells m caller p.parent
  | child {entry : VirtAddr} {map : StackMap} {p : Process} {k : Kernel} :
      m.kernel.create entry map false = .ok (p, k) → Tells m caller p.id

/-- The operation is answered with zero or with an error, if it comes to an end. -/
def Plain (o : Outcome Completion) : Prop :=
  ∀ n c, o = .done n c → c = .ready (.value 0) ∨ ∃ e, c = .ready (.error e)

theorem plain_succeed (m : Machine) : Plain m.succeed := by
  intro n c h
  cases h
  exact .inl rfl

theorem plain_fail (m : Machine) (e : CallError) : Plain (m.fail e) := by
  intro n c h
  cases h
  exact .inr ⟨e, rfl⟩

theorem plain_andThen {α : Type} {o : Outcome α} {next : Machine → α → Outcome Completion}
    (h : ∀ m a, Plain (next m a)) : Plain (o.andThen next) := by
  intro n c hn
  obtain ⟨w, a, _, hw⟩ := Outcome.andThen_eq_done_iff.1 hn
  exact h w a n c hw

theorem plain_withCurrent {next : Process → Outcome Completion} (h : ∀ p, Plain (next p)) :
    Plain (m.withCurrent next) := by
  intro n c hn
  obtain ⟨p, _, hp⟩ := withCurrent_done hn
  exact h p n c hp

theorem plain_replyOfLine (m : Machine) (r : Except LineError Unit) : Plain (m.replyOfLine r) := by
  unfold replyOfLine
  split
  · exact m.plain_fail _
  · exact m.plain_succeed

theorem plain_writeOut (m : Machine) (buffer : Word) (words : List Word) :
    Plain (m.writeOut buffer words) := by
  unfold writeOut
  split
  · exact m.plain_fail _
  · exact plain_succeed _

theorem plain_kill (m : Machine) (target : ProcessId) (status : Word) :
    Plain (m.kill target status) := by
  unfold kill
  split
  · exact m.plain_fail _
  · exact plain_andThen fun _ _ => plain_andThen fun m _ => m.plain_succeed

theorem plain_sleep (m : Machine) (timer : SleepTimer) : Plain (m.sleep timer) := by
  refine plain_withCurrent fun p => ?_
  simp only
  split
  · exact plain_succeed _
  · exact plain_andThen fun m _ => m.plain_succeed

/-- Only four operations are answered with anything else than zero or an error: two tell an
identifier of the caller's, one that of a new process, and one is answered later. -/
theorem perform_tells (h : m.perform caller target op = .done n c) :
    (∃ r, c = .ready r ∧ ∀ w, r = .value w → m.Tells caller w) ∨
      c = .deferred ∧ op = .waitProcess := by
  have hplain : ∀ {o : Outcome Completion}, Plain o → o = .done n c →
      (∃ r, c = .ready r ∧ ∀ w, r = .value w → m.Tells caller w) ∨
        c = .deferred ∧ op = .waitProcess := by
    intro o ho hn
    rcases ho n c hn with rfl | ⟨e, rfl⟩
    · refine .inl ⟨_, rfl, fun w hw => ?_⟩
      cases hw
      exact .nothing
    · exact .inl ⟨_, rfl, fun w hw => by cases hw⟩
  cases op with
  | spawn entry =>
    simp only [perform, spawn, Machine.create] at h
    split at h
    · exact hplain (m.plain_fail _) h
    · rename_i p v hv
      split at hv
      · cases hv
      · rename_i hk
        cases hv
        cases h
        refine .inl ⟨_, rfl, fun w hw => ?_⟩
        cases hw
        exact .child hk
  | kill status => exact hplain (m.plain_kill target status) h
  | getId =>
    cases h
    refine .inl ⟨_, rfl, fun w hw => ?_⟩
    cases hw
    exact .caller
  | getParent =>
    obtain ⟨p, hp, hn⟩ := withCurrent_done h
    cases hn
    refine .inl ⟨_, rfl, fun w hw => ?_⟩
    cases hw
    exact .parent hp
  | watchLine line => exact hplain (plain_andThen plain_replyOfLine) h
  | enableLine line => exact hplain (plain_andThen plain_replyOfLine) h
  | disableLine line => exact hplain (plain_andThen plain_replyOfLine) h
  | describeProcess buffer =>
    simp only [perform, describeProcess] at h
    split at h
    · exact hplain (m.plain_fail _) h
    · exact hplain (m.plain_writeOut _ _) h
  | waitProcess =>
    simp only [perform, waitProcess] at h
    split at h
    · exact hplain (m.plain_fail _) h
    · obtain ⟨p, _, hp⟩ := withCurrent_done h
      obtain ⟨v, id, _, hv⟩ := Outcome.andThen_eq_done_iff.1 hp
      cases hv
      exact .inr ⟨rfl, rfl⟩
  | readClock buffer =>
    simp only [perform, readClock] at h
    split at h
    · exact hplain (m.plain_fail _) h
    · exact hplain (m.plain_writeOut _ _) h
  | waitTimer deadline =>
    simp only [perform, waitTimer] at h
    split at h
    · exact hplain (m.plain_fail _) h
    · split at h
      · exact hplain m.plain_succeed h
      · exact hplain (plain_withCurrent fun _ => plain_andThen fun m _ => m.plain_succeed) h
  | enterSleep deadline =>
    simp only [perform, enterSleep] at h
    split at h
    · exact hplain (m.plain_sleep _) h
    · split at h
      · exact hplain (m.plain_fail _) h
      · split at h
        · exact hplain m.plain_succeed h
        · exact hplain (m.plain_sleep _) h
  | yieldCpu => exact hplain (plain_andThen fun m _ => m.plain_succeed) h
  | resume =>
    simp only [perform, resume] at h
    split at h
    · exact hplain (m.plain_fail _) h
    · exact hplain (plain_succeed _) h
  | setStack stack =>
    simp only [perform, setStack] at h
    split at h
    · exact hplain (plain_succeed _) h
    · exact hplain (plain_succeed _) h

/-- A request is answered at once with an error or with such a value, or it is one to wait for
another process. -/
theorem serve_tells {q : Request} (h : m.serve q = .done n c) :
    (∃ p r, m.kernel.currentProcess? = some p ∧ c = .ready r ∧
        ∀ w, r = .value w → m.Tells p.id w) ∨
      c = .deferred ∧ ∃ target, m.asked q = some (target, .waitProcess) := by
  obtain ⟨p, hp, ⟨_, _, e, rfl⟩ | ⟨target, op, _, _, hasked, _⟩⟩ := serve_done h
  · exact .inl ⟨p, _, hp, rfl, fun w hw => by cases hw⟩
  · obtain ⟨code, hserve⟩ := serve_asked hp hasked
    rw [hserve] at h
    obtain ⟨v, c', hv, hn⟩ := Outcome.andThen_eq_done_iff.1 h
    cases hn
    rcases perform_tells hv with ⟨r, rfl, hr⟩ | ⟨rfl, rfl⟩
    · refine .inl ⟨p, r, hp, rfl, fun w hw => ?_⟩
      -- The note of the request that comes first is not part of the kernel.
      cases hr w hw with
      | nothing => exact .nothing
      | caller => exact .caller
      | parent hp' => exact .parent hp'
      | child hk => exact .child hk
    · exact .inr ⟨rfl, target, hasked⟩

theorem Tells.le (h : m.Tells caller w) {p : Process} (hp : m.kernel.currentProcess? = some p)
    (hc : p.id = caller) (hm : m.kernel.Within bound)
    (hroom : 2 * m.kernel.processes.size + 1 ≤ bound) : w.toNat ≤ bound := by
  cases h with
  | nothing => exact Nat.zero_le _
  | caller =>
    rw [← hc]
    exact (hm _ p (currentProcess?_eq_some hp).2).1
  | parent hp' => exact (hm _ _ (currentProcess?_eq_some hp').2).2
  | child hk =>
    obtain ⟨_, hid, _⟩ := Kernel.create_eq_ok hk
    exact Nat.le_trans (Kernel.toNat_nextId?_le hid) hroom

/-- Whatever is done to a kernel over the whole frames of a range, and whatever a request asks for
then: if it is completed, the word for its reply reads back as this reply, and a value is not above
twice the number of the frames and one more. It is left uncompleted only if it is one to wait for
another process. -/
theorem answers_read_back {config : Config} {start limit : PhysAddr} {pool : FramePool}
    {timed : Bool} {kernel : Kernel} {as : List Action}
    (hpool : FramePool.ofRange? start limit = some pool)
    (hkernel : Kernel.build config pool timed = .ok kernel)
    (hrun : (Machine.start kernel).acts as = .done m ()) (q : Request)
    (hserve : m.withKernel (fun m => m.serve q) = .done n c) :
    (∃ r, c = .ready r ∧ Reply.decode r.encode = r ∧
      ∀ w, r = .value w → w.toNat ≤ 2 * (limit.word.toNat / 4096) + 1) ∨
    c = .deferred ∧ ∃ target, m.asked q = some (target, .waitProcess) := by
  obtain ⟨first, _, hstart⟩ := Kernel.issues_of_build hpool hkernel
  obtain ⟨count, hissues⟩ := issues_acts (m := .start kernel) hstart hrun
  have hlimit : (limit.word.toNat - first.word.toNat) / 4096 ≤ limit.word.toNat / 4096 :=
    Nat.div_le_div_right (Nat.sub_le _ _)
  have hwithin : m.kernel.Within (2 * (limit.word.toNat / 4096) + 1) :=
    within_acts (by omega) (.start hkernel) hstart ((Kernel.fresh_of_build hkernel).within _) hrun
  have hroom : 2 * m.kernel.processes.size + 1 ≤ 2 * (limit.word.toNat / 4096) + 1 := by
    have hframes := hissues.available
    omega
  obtain ⟨locks, _, v, hv, _⟩ := withKernel_done hserve
  rcases serve_tells hv with ⟨p, r, hp, rfl, htells⟩ | hdeferred
  · have hvalue : ∀ w, r = .value w → w.toNat ≤ 2 * (limit.word.toNat / 4096) + 1 :=
      fun w hw => (htells w hw).le hp rfl hwithin hroom
    refine .inl ⟨r, rfl, ?_, hvalue⟩
    cases r with
    | error e => exact Reply.decode_encode_error e
    | value w =>
      have hle := hvalue w rfl
      have hrange := limit.inRange
      exact Reply.decode_encode_value (by omega)
  · exact .inr hdeferred

/-- The greatest limit on identifiers that is accepted, with stacks of one byte each. -/
def widest : Config :=
  { Config.standard with
      maxProcesses := 0xFFFFFFFFFFFFFFFE
      userStackTop := 0xFFFFFFFFFFFFFFFF
      userStackSize := 1
      kernelStackBase := 0
      kernelStackSize := 1 }

/-- A process that has the identifier of one that ended asks for its parent's. -/
theorem answers_read_back_widest : ∃ pool kernel m n,
    FramePool.ofRange? narrowStart narrowLimit = some pool ∧
    Kernel.build widest pool true = .ok kernel ∧
    (Machine.start kernel).acts (replaced ++ calls 0 .yieldCpu 0) = .done m () ∧
    m.kernel.current = some 2 ∧
    m.withKernel (fun m => m.serve ⟨0, OperationCode.getParent.toWord, 0, 0⟩) =
      .done n (.ready (.value 1)) ∧
    Reply.decode (Reply.value 1).encode = .value 1 := by
  obtain ⟨pool, hpool⟩ : ∃ pool, FramePool.ofRange? narrowStart narrowLimit = some pool :=
    ⟨_, rfl⟩
  obtain ⟨kernel, hk⟩ : ∃ kernel, Kernel.build widest pool true = .ok kernel :=
    ⟨_, by cases hpool; rfl⟩
  obtain ⟨m, hm, hcheck⟩ := Outcome.exists_of_endsIn
    ((start kernel).acts (replaced ++ calls 0 .yieldCpu 0))
    (fun m => m.kernel.current == some 2 &&
      ((m.withKernel fun m => m.serve ⟨0, OperationCode.getParent.toWord, 0, 0⟩).andThen fun n c =>
        if c = .ready (.value 1) then .done n () else n.stop .noProcessBound).endsIn fun _ => true)
    (by cases hpool; cases hk; decide +kernel)
  simp only [Bool.and_eq_true, beq_iff_eq] at hcheck
  obtain ⟨hcurrent, hserved⟩ := hcheck
  obtain ⟨v, hv, _⟩ := Outcome.exists_of_endsIn _ _ hserved
  obtain ⟨n, c, hn, hc⟩ := Outcome.andThen_eq_done_iff.1 hv
  split at hc
  · rename_i hone
    subst hone
    obtain ⟨r, hr, hread, _⟩ | ⟨hdeferred, _⟩ := answers_read_back hpool hk hm _ hn
    · cases hr
      exact ⟨pool, kernel, m, n, hpool, hk, hm, hcurrent, hn, hread⟩
    · cases hdeferred
  · cases hc

/-- An exit status is handed to whoever waits for it as it is, also where it looks like an error. -/
example : (trial (untilExit CallError.notFound.code ++ [.request])).endsIn
    (fun m => m.kernel.current == some 1 && Reply.decode m.frame.result == .error .notFound) =
      true := by
  decide +kernel

end Machine
end Nucleus
