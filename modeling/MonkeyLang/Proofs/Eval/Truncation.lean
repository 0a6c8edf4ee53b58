import MonkeyLang.Proofs.Eval.Composition
import MonkeyLang.Session

namespace MonkeyLang

namespace Effect

variable {ε δ α β : Type}

/-- Goes on with whatever a computation comes to, be it a value or an error. -/
def resume (effect : Effect ε α) (next : Except ε α → Effect δ β) : Effect δ β := fun state =>
  match effect state with
  | .ok value after => next (.ok value) after
  | .error error after => next (.error error) after

private theorem resume_of_eq {effect : Effect ε α} {next : Except ε α → Effect δ β}
    {state after : State} {outcome : Except ε α} (heffect : effect state = ofExcept outcome after) :
    effect.resume next state = next outcome after := by
  rw [resume, heffect]
  cases outcome <;> rfl

theorem bind_eq_resume (first : Effect ε α) (next : α → Effect ε β) :
    first >>= next = first.resume fun
      | .ok value => next value
      | .error error => throw error := by
  funext state
  simp only [bind, EStateM.bind, resume]
  cases first state <;> rfl

private theorem adaptExcept_eq_resume (effect : Effect ε α) (wrap : ε → δ) :
    EStateM.adaptExcept wrap effect = effect.resume fun
      | .ok value => pure value
      | .error error => throw (wrap error) := by
  funext state
  simp only [EStateM.adaptExcept, resume]
  cases effect state <;> rfl

end Effect

theorem catchReturn_eq_resume (body : Eval Value) :
    Eval.catchReturn body = body.resume fun
      | .ok value => pure value
      | .error (.ret value) => pure value
      | .error signal => throw signal := by
  funext state
  simp only [Eval.catchReturn, Effect.resume]
  cases body state with
  | ok value after => rfl
  | error signal after => cases signal <;> rfl

open Effect

private theorem extract_zero_of_size_le {bytes : ByteArray} {limit : Nat}
    (hsize : bytes.size ≤ limit) : bytes.extract 0 limit = bytes := by
  rw [← Nat.max_eq_left hsize, ByteArray.extract_zero_max_size]

/-- What a limit makes of one run of a computation. If everything fits there is no difference,
and otherwise the run fails with the stream full of what it would have written. -/
structure Truncated {ε α : Type} (failure : ε) (effect : Effect ε α) (heap : Heap)
    (written : ByteArray) (outcome : Except ε α) (after : Heap) (more : ByteArray) : Prop where
  unlimited : effect ⟨heap, ⟨written, none⟩⟩ = ofExcept outcome ⟨after, ⟨written ++ more, none⟩⟩
  fits : ∀ limit, (written ++ more).size ≤ limit →
    effect ⟨heap, ⟨written, some limit⟩⟩ = ofExcept outcome ⟨after, ⟨written ++ more, some limit⟩⟩
  cut : ∀ limit, written.size ≤ limit → limit < (written ++ more).size → ∃ left,
    effect ⟨heap, ⟨written, some limit⟩⟩ =
      .error failure ⟨left, ⟨(written ++ more).extract 0 limit, some limit⟩⟩

/-- A limit on the stream does nothing to a computation but cut it short. -/
def Truncates {ε α : Type} (failure : ε) (effect : Effect ε α) : Prop :=
  ∀ heap written, ∃ outcome after more, Truncated failure effect heap written outcome after more

namespace Truncates

variable {ε δ α β : Type} {failure : ε}

/-- A computation that neither reads nor writes the stream is not cut short. -/
theorem of_silent {effect : Effect ε α}
    (hsilent : ∀ heap, ∃ outcome after, ∀ output,
      effect ⟨heap, output⟩ = ofExcept outcome ⟨after, output⟩) : Truncates failure effect := by
  intro heap written
  obtain ⟨outcome, after, hsilent⟩ := hsilent heap
  refine ⟨outcome, after, .empty, ?_, ?_, ?_⟩
  · rw [ByteArray.append_empty]
    exact hsilent _
  · intro limit _
    rw [ByteArray.append_empty]
    exact hsilent _
  · intro limit hroom hcut
    rw [ByteArray.append_empty] at hcut
    omega

theorem pure (value : α) : Truncates failure (Pure.pure value : Effect ε α) :=
  of_silent fun heap => ⟨.ok value, heap, fun _ => rfl⟩

theorem throw (error : ε) : Truncates failure (throw error : Effect ε α) :=
  of_silent fun heap => ⟨.error error, heap, fun _ => rfl⟩

theorem allocate (new : Heap → Nat × Heap) : Truncates failure (Effect.allocate new) :=
  of_silent fun heap => ⟨.ok (new heap).1, (new heap).2, fun _ => rfl⟩

theorem update (change : Heap → Heap) : Truncates failure (Effect.update change) :=
  of_silent fun heap => ⟨.ok (), change heap, fun _ => rfl⟩

theorem heap : Truncates failure Effect.heap :=
  of_silent fun heap => ⟨.ok heap, heap, fun _ => rfl⟩

theorem write (text : String) : Truncates failure (Effect.write failure text) := by
  intro heap written
  refine ⟨.ok (), heap, text.toUTF8, rfl, ?_, ?_⟩
  · intro limit hfits
    rw [ByteArray.size_append] at hfits
    have hroom : text.toUTF8.size ≤ limit - written.size := by omega
    simp only [Effect.write, Output.write, Output.room, Option.map_some, hroom,
      extract_zero_of_size_le hroom, decide_true, if_true]
    rfl
  · intro limit hroom hcut
    rw [ByteArray.size_append] at hcut
    have hmore : ¬ text.toUTF8.size ≤ limit - written.size := by omega
    refine ⟨heap, ?_⟩
    simp only [Effect.write, Output.write, Output.room, Option.map_some, hmore, decide_false,
      ByteArray.extract_append, extract_zero_of_size_le hroom, Nat.zero_sub, Bool.false_eq_true,
      if_false]

theorem printLine (state : Heap) (value : Value) :
    Truncates failure (Effect.print failure (state.printLine value)) := by
  rw [Heap.printLine_eq_text, print_text]
  exact write _

/-- Two computations one after the other are cut short like each of them, as long as the second
one fails on a full stream if that is why the first one failed. -/
theorem resume {effect : Effect ε α} {next : Except ε α → Effect δ β} {broken : δ}
    (heffect : Truncates failure effect) (hnext : ∀ outcome, Truncates broken (next outcome))
    (hfull : ∀ heap written, ∃ left, next (.error failure) ⟨heap, ⟨written, some written.size⟩⟩ =
      .error broken ⟨left, ⟨written, some written.size⟩⟩) :
    Truncates broken (effect.resume next) := by
  intro heap written
  obtain ⟨found, middle, first, hfirst⟩ := heffect heap written
  obtain ⟨outcome, after, second, hsecond⟩ := hnext found middle (written ++ first)
  refine ⟨outcome, after, first ++ second, ?_, ?_, ?_⟩
  · rw [← ByteArray.append_assoc, resume_of_eq hfirst.unlimited]
    exact hsecond.unlimited
  · intro limit hfits
    rw [← ByteArray.append_assoc] at hfits ⊢
    have hmiddle : (written ++ first).size ≤ limit := by
      rw [ByteArray.size_append] at hfits
      omega
    rw [resume_of_eq (hfirst.fits limit hmiddle)]
    exact hsecond.fits limit hfits
  · intro limit hroom hcut
    rw [← ByteArray.append_assoc] at hcut ⊢
    -- The stream becomes full in one of the two parts. If it is the first one, the second one
    -- still runs, but on a full stream.
    by_cases hmiddle : (written ++ first).size ≤ limit
    · rw [resume_of_eq (hfirst.fits limit hmiddle)]
      exact hsecond.cut limit hmiddle hcut
    · obtain ⟨left, hleft⟩ := hfirst.cut limit hroom (Nat.lt_of_not_le hmiddle)
      have hextract : (written ++ first ++ second).extract 0 limit =
          (written ++ first).extract 0 limit := by
        have hnone : second.extract 0 (limit - (written ++ first).size) = ByteArray.empty :=
          ByteArray.extract_eq_empty_iff.mpr (by omega)
        rw [ByteArray.extract_append, Nat.zero_sub, hnone, ByteArray.append_empty]
      have hsize : ((written ++ first).extract 0 limit).size = limit := by
        rw [ByteArray.size_extract]
        omega
      obtain ⟨final, hfinal⟩ := hfull left ((written ++ first).extract 0 limit)
      rw [hsize] at hfinal
      refine ⟨final, ?_⟩
      rw [Effect.resume, hleft, hextract]
      exact hfinal

theorem bind {first : Effect ε α} {next : α → Effect ε β} (hfirst : Truncates failure first)
    (hnext : ∀ value, Truncates failure (next value)) : Truncates failure (first >>= next) := by
  rw [bind_eq_resume]
  refine hfirst.resume ?_ fun heap _ => ⟨heap, rfl⟩
  rintro (error | value)
  · exact throw error
  · exact hnext value

theorem adaptExcept {effect : Effect ε α} (heffect : Truncates failure effect) (wrap : ε → δ) :
    Truncates (wrap failure) (EStateM.adaptExcept wrap effect) := by
  rw [adaptExcept_eq_resume]
  refine heffect.resume ?_ fun heap _ => ⟨heap, rfl⟩
  rintro (error | value)
  · exact throw (wrap error)
  · exact pure value

/-- A `return` may end a call, but nothing ends a failure. -/
theorem catchReturn {body : Eval Value} {fault : Fault}
    (hbody : Truncates (Signal.fault fault) body) :
    Truncates (Signal.fault fault) (Eval.catchReturn body) := by
  rw [catchReturn_eq_resume]
  refine hbody.resume ?_ fun heap _ => ⟨heap, rfl⟩
  rintro (signal | value)
  · cases signal with
    | ret value => exact pure value
    | fault fault => exact throw (Signal.fault fault)
    | exhausted => exact throw Signal.exhausted
  · exact pure value

theorem composable :
    Composable fun α (effect : Eval α) => Truncates (Signal.fault .output) effect where
  pure := pure
  bind := bind
  fail fault := throw (Signal.fault fault)
  heap := heap
  newArray _ := allocate _
  newHash _ := allocate _
  newClosure _ := allocate _

theorem apply {run : Nat → Block → Eval Value}
    (hrun : ∀ scope body, Truncates (Signal.fault .output) (run scope body)) (callee : Value)
    (args : List Value) : Truncates (Signal.fault .output) (MonkeyLang.apply run callee args) := by
  have hputLine (arg : Value) : Truncates Fault.output (Builtin.putLine arg) :=
    heap.bind fun state => printLine state arg
  refine composable.apply ?_ ?_ callee args
  · exact composable.call (fun _ _ _ => update _) fun arg => (hputLine arg).adaptExcept Signal.fault
  · intro outer bindings body
    refine (allocate _).bind fun scope => ?_
    exact (composable.bindAll (fun _ _ => update _) bindings).bind fun _ =>
      (hrun scope body).catchReturn

/-- Neither binding a name nor returning writes anything. -/
theorem allows (scope : Nat) (stmt : Stmt) :
    stmt.Allows (fun α (effect : Eval α) => Truncates (Signal.fault .output) effect) scope := by
  cases stmt with
  | bind name value => exact fun _ => update _
  | ret value => exact fun value => throw (Signal.ret value)
  | expr value => trivial

theorem runBody (depth scope : Nat) (body : Block) :
    Truncates (Signal.fault .output) (MonkeyLang.runBody depth scope body) := by
  induction depth generalizing scope body with
  | zero => exact throw Signal.exhausted
  | succ depth ih =>
    have hstmts := composable.evalStmts (apply ih) none body fun stmt _ => allows scope stmt
    exact hstmts.bind fun _ => pure _

theorem evalStmts (depth scope : Nat) (stmts : List Stmt) : Truncates (Signal.fault .output)
    (MonkeyLang.evalStmts (MonkeyLang.runBody depth) scope none stmts) :=
  composable.evalStmts (apply (runBody depth)) none stmts fun stmt _ => allows scope stmt

end Truncates

namespace Session

/-- Writes the value of a program. -/
def reportValue (value : Value) : Effect Failure Unit := do
  Effect.print .brokenPipe ((← Effect.heap).printLine value)

/-- What is left of a run after its statements have been evaluated. -/
def report : Except Signal (Option Value) → Effect Failure Unit
  | .ok none => pure ()
  | .ok (some value) | .error (.ret value) => reportValue value
  | .error (.fault fault) => reportValue (.error fault)
  | .error .exhausted => throw .exhausted

theorem report_cases (outcome : Except Signal (Option Value)) :
    report outcome = pure () ∨ (∃ value, report outcome = reportValue value) ∨
      report outcome = throw .exhausted := by
  rcases outcome with signal | value
  · cases signal with
    | ret value => exact .inr (.inl ⟨value, rfl⟩)
    | fault fault => exact .inr (.inl ⟨.error fault, rfl⟩)
    | exhausted => exact .inr (.inr rfl)
  · cases value with
    | none => exact .inl rfl
    | some value => exact .inr (.inl ⟨value, rfl⟩)

private theorem evaluate_report (depth scope : Nat) (stmts : List Stmt) :
    (do
      match ← evaluate depth scope stmts with
      | none => return ()
      | some value => Effect.print .brokenPipe ((← Effect.heap).printLine value)) =
    (evalStmts (runBody depth) scope none stmts).resume report := by
  funext state
  simp only [bind, EStateM.bind, evaluate, EStateM.adaptExcept, evalProgram, Effect.resume]
  cases evalStmts (runBody depth) scope none stmts state with
  | ok value after => cases value <;> rfl
  | error signal after => cases signal <;> rfl

theorem run_eq (depth scope : Nat) (code : String) :
    run depth scope code =
      let program := Program.parse code
      let body := (evalStmts (runBody depth) scope none program.stmts).resume report
      if program.errors.isEmpty then body
      else writeErrors (program.errors.map SyntaxError.message) >>= fun _ => body := by
  simp only [← evaluate_report]
  rfl

/-- A full stream takes no line at all. -/
private theorem printLine_full (heap : Heap) (value : Value) (written : ByteArray) :
    Effect.print Failure.brokenPipe (heap.printLine value) ⟨heap, ⟨written, some written.size⟩⟩ =
      .error .brokenPipe ⟨heap, ⟨written, some written.size⟩⟩ := by
  have hline : ¬ (heap.render value ++ "\n").toUTF8.size ≤ 0 := by
    have hbreak : "\n".toUTF8.size = 1 := rfl
    simp only [String.toUTF8_eq_toByteArray, String.toByteArray_append, ByteArray.size_append]
      at hbreak ⊢
    omega
  have hnone : (heap.render value ++ "\n").toUTF8.extract 0 0 = ByteArray.empty :=
    ByteArray.extract_eq_empty_iff.mpr (by simp)
  rw [Heap.printLine_eq_text, print_text]
  simp only [Effect.write, Output.write, Output.room, Option.map_some, Nat.sub_self, hline, hnone,
    decide_false, ByteArray.append_empty, Bool.false_eq_true, if_false]

theorem truncates_report (outcome : Except Signal (Option Value)) :
    Truncates Failure.brokenPipe (report outcome) := by
  rcases report_cases outcome with hreport | ⟨value, hreport⟩ | hreport
  · rw [hreport]
    exact .pure ()
  · rw [hreport]
    exact Truncates.heap.bind fun heap => .printLine heap value
  · rw [hreport]
    exact .throw Failure.exhausted

theorem truncates_run (depth scope : Nat) (code : String) :
    Truncates Failure.brokenPipe (run depth scope code) := by
  have hbody := (Truncates.evalStmts depth scope (Program.parse code).stmts).resume truncates_report
    fun heap written => ⟨heap, printLine_full heap (.error .output) written⟩
  rw [run_eq]
  dsimp only
  split
  · exact hbody
  · exact (Truncates.write _).bind fun _ => hbody

private theorem report_unlimited (outcome : Except Signal (Option Value)) (heap : Heap)
    (written : ByteArray) : (∃ after, report outcome ⟨heap, ⟨written, none⟩⟩ = .ok () after) ∨
      ∃ after, report outcome ⟨heap, ⟨written, none⟩⟩ = .error .exhausted after := by
  rcases report_cases outcome with hreport | ⟨value, hreport⟩ | hreport
  · rw [hreport]
    exact .inl ⟨_, rfl⟩
  · have hline : reportValue value ⟨heap, ⟨written, none⟩⟩ =
        Effect.write .brokenPipe (heap.render value ++ "\n") ⟨heap, ⟨written, none⟩⟩ := by
      rw [← print_text, ← Heap.printLine_eq_text]
      rfl
    rw [hreport, hline]
    exact .inl ⟨_, rfl⟩
  · rw [hreport]
    exact .inr ⟨_, rfl⟩

private theorem resume_report_unlimited (depth scope : Nat) (stmts : List Stmt) (heap : Heap)
    (written : ByteArray) :
    let body := (evalStmts (runBody depth) scope none stmts).resume report
    (∃ after, body ⟨heap, ⟨written, none⟩⟩ = .ok () after) ∨
      ∃ after, body ⟨heap, ⟨written, none⟩⟩ = .error .exhausted after := by
  obtain ⟨outcome, middle, more, heval⟩ := Truncates.evalStmts depth scope stmts heap written
  dsimp only
  rw [resume_of_eq heval.unlimited]
  exact report_unlimited outcome middle (written ++ more)

/-- Without a limit a run has a result, unless calls are nested too deeply. -/
theorem run_unlimited (depth scope : Nat) (code : String) (heap : Heap) :
    (∃ after, run depth scope code ⟨heap, {}⟩ = .ok () after) ∨
      ∃ after, run depth scope code ⟨heap, {}⟩ = .error .exhausted after := by
  rw [run_eq]
  dsimp only
  split
  · exact resume_report_unlimited depth scope _ heap .empty
  · exact resume_report_unlimited depth scope _ heap _

/-- Whether a run came to an end by itself, and was not given up because calls were nested too
deeply. -/
def ended : EStateM.Result Failure State Unit → Bool
  | .error .exhausted _ => false
  | _ => true

/-- A limit on the stream only cuts a run short. The stream then holds as much as fits of what
would have been written, and the run succeeds if and only if that is all of it. -/
theorem limit_only_truncates (depth scope : Nat) (code : String) (heap : Heap) (limit : Nat)
    (hended : ended (run depth scope code ⟨heap, {}⟩) = true) :
    ∃ after left, run depth scope code ⟨heap, {}⟩ = .ok () after ∧
      let output := { written := after.output.written.extract 0 limit, limit := some limit }
      run depth scope code ⟨heap, { limit := some limit }⟩ =
        if after.output.written.size ≤ limit then .ok () ⟨after.heap, output⟩
        else .error .brokenPipe ⟨left, output⟩ := by
  obtain ⟨after, hrun⟩ : ∃ after, run depth scope code ⟨heap, {}⟩ = .ok () after := by
    refine (run_unlimited depth scope code heap).resolve_right ?_
    rintro ⟨after, hrun⟩
    rw [hrun] at hended
    cases hended
  obtain ⟨outcome, found, more, hlimited⟩ := truncates_run depth scope code heap .empty
  have hunlimited := hlimited.unlimited
  rw [ByteArray.empty_append] at hunlimited
  cases outcome with
  | error failure => cases hrun.symm.trans hunlimited
  | ok value =>
    cases hrun.symm.trans hunlimited
    by_cases hfits : more.size ≤ limit
    · have hfitting := hlimited.fits limit
      rw [ByteArray.empty_append] at hfitting
      refine ⟨_, heap, hrun, ?_⟩
      dsimp only
      rw [if_pos hfits, extract_zero_of_size_le hfits]
      exact hfitting hfits
    · have hcutting := hlimited.cut limit (Nat.zero_le limit)
      rw [ByteArray.empty_append] at hcutting
      obtain ⟨left, hleft⟩ := hcutting (Nat.lt_of_not_le hfits)
      refine ⟨_, left, hrun, ?_⟩
      dsimp only
      rw [if_neg hfits]
      exact hleft

/-- The output ends inside an array, which is written by a function on behalf of the program. -/
theorem limit_only_truncates_inside_array :
    let code := "let show = fn(x) \x7b puts(x); x \x7d; show([12, 3]);"
    let heap : Heap := { scopes := #[{}] }
    ∃ after left, run 1 0 code ⟨heap, {}⟩ = .ok () after ∧
      let output := { written := after.output.written.extract 0 4, limit := some 4 }
      run 1 0 code ⟨heap, { limit := some 4 }⟩ =
        if after.output.written.size ≤ 4 then .ok () ⟨after.heap, output⟩
        else .error .brokenPipe ⟨left, output⟩ :=
  limit_only_truncates 1 0 _ _ 4 (by decide +kernel)

end Session

end MonkeyLang
