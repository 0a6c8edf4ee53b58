import MonkeyLang.Proofs.Parser.Soundness

namespace MonkeyLang

/-- What a class of tokens adds to the number of open brackets. The three kinds of brackets
count alike. -/
def Kind.nesting : Kind → Int
  | lparen | lbrace | lbracket => 1
  | rparen | rbrace | rbracket => -1
  | _ => 0

/-- The number of opening brackets less that of closing ones. -/
def bracketDepth (tokens : List Token) : Int :=
  tokens.countP (·.kind.isOpening) - tokens.countP (·.kind.isClosing)

theorem bracketDepth_cons (token : Token) (tokens : List Token) :
    bracketDepth (token :: tokens) = token.kind.nesting + bracketDepth tokens := by
  obtain ⟨kind, text⟩ := token
  simp only [bracketDepth, List.countP_cons]
  cases kind <;> simp only [Kind.nesting, Kind.isOpening, Kind.isClosing] <;> grind

theorem bracketDepth_append (tokens others : List Token) :
    bracketDepth (tokens ++ others) = bracketDepth tokens + bracketDepth others := by
  simp only [bracketDepth, List.countP_append]
  omega

namespace Parser

/-- Whether a frame waits inside a bracket of its own. -/
def Frame.depth : Frame → Nat
  | group | item _ _ | key _ | value _ _ | index _ | test => 1
  | unary _ | binary _ _ | ternaryYes _ | ternaryNo _ _ => 0

/-- The number of brackets that frames have opened. -/
def framesDepth (frames : List Frame) : Nat :=
  frames.foldr (fun frame depth => frame.depth + depth) 0

/-- The number of brackets that open blocks and the statements around them have opened. -/
def outerDepth (outer : List OpenBlock) : Nat :=
  outer.foldr (fun block depth => framesDepth block.inside.frames + 1 + depth) 0

/-- Whether what is due stands inside a bracket that no frame accounts for. -/
def Focus.depth : Focus → Nat
  | firstItem _ | firstPair | firstParam | param _ | afterParam _ => 1
  | operand | after _ | ifParen | mayElse _ _ | fnParen | openBlock _ => 0

/-- The number of brackets that are open. -/
def Config.depth : Config → Nat
  | between block outer => outerDepth (block :: outer)
  | head _ outer => outerDepth outer
  | inside focus pending outer => focus.depth + framesDepth pending.frames + outerDepth outer

theorem framesDepth_nil : framesDepth [] = 0 := rfl

theorem framesDepth_cons (frame : Frame) (frames : List Frame) :
    framesDepth (frame :: frames) = frame.depth + framesDepth frames := rfl

theorem outerDepth_cons (block : OpenBlock) (outer : List OpenBlock) :
    outerDepth (block :: outer) = framesDepth block.inside.frames + 1 + outerDepth outer := rfl

/-- What a step from some depth does to it. A token that is taken counts as a bracket or not at
all, and a semicolon is taken inside a block only. -/
def Step.Nests (step : Step) (depth : Nat) (kind : Kind) : Prop :=
  match step with
  | .shift next => (next.depth : Int) = depth + kind.nesting ∧ (kind = .semicolon → 0 < depth)
  | .accept _ => depth = 0

theorem Step.Nests.shift {next : Config} {depth : Nat} {kind : Kind}
    (hdepth : (next.depth : Int) = depth + kind.nesting) (hkind : kind ≠ .semicolon) :
    (Step.shift next).Nests depth kind :=
  ⟨hdepth, fun hsemicolon => absurd hsemicolon hkind⟩

private theorem demand_nests {wanted : Kind} {token : Token} {next : Config} {step : Step}
    {depth : Nat} (hstep : demand wanted token next = .ok step) (hwanted : wanted ≠ .semicolon)
    (hdepth : (next.depth : Int) = depth + wanted.nesting) : step.Nests depth token.kind := by
  obtain ⟨text, rfl, rfl⟩ := demand_eq_ok hstep
  exact .shift hdepth hwanted

private theorem demand_comma_nests {wanted : Kind} {token : Token} {more next : Config}
    {step : Step} {depth : Nat} (hstep : (if token.kind = .comma then .ok (.shift more)
      else demand wanted token next) = .ok step) (hwanted : wanted ≠ .semicolon)
    (hmore : more.depth = depth) (hdepth : (next.depth : Int) = depth + wanted.nesting) :
    step.Nests depth token.kind := by
  obtain ⟨text, ⟨rfl, rfl⟩ | ⟨rfl, rfl⟩⟩ := demand_comma_eq_ok hstep
  · exact .shift (by simp [hmore, Kind.nesting]) (by simp)
  · exact .shift hdepth hwanted

private theorem readOperand_nests {pending : Pending} {outer : List OpenBlock} {token : Token}
    {next : Config} (hread : readOperand pending outer token = .ok next) :
    (Step.shift next).Nests (framesDepth pending.frames + outerDepth outer) token.kind := by
  obtain ⟨kind, text⟩ := token
  cases kind with
  | int =>
    simp only [readOperand] at hread
    split at hread
    · cases hread
      refine .shift ?_ (by simp)
      simp only [Config.depth, Focus.depth, Kind.nesting]
      omega
    · cases hread
  | ident | string | kwTrue | kwFalse | kwNull | bang | minus | lparen | lbracket | lbrace | kwIf
  | kwFn =>
    cases hread
    refine .shift ?_ (by simp)
    simp only [Config.depth, Focus.depth, Pending.push, framesDepth_cons, Frame.depth, Kind.nesting]
    omega
  | _ => cases hread

private theorem readStart_nests {outer : List OpenBlock} {token : Token} {next : Config}
    (hread : readStart outer token = .ok next) :
    (Step.shift next).Nests (outerDepth outer) token.kind := by
  unfold readStart at hread
  split at hread
  · rename_i hkind
    cases hread
    rw [hkind]
    exact .shift (by simp [Config.depth, Kind.nesting]) (by simp)
  · rename_i hkind
    cases hread
    rw [hkind]
    exact .shift (by simp [Config.depth, Kind.nesting]) (by simp)
  · have hnests := readOperand_nests hread
    rw [framesDepth_nil, Nat.zero_add] at hnests
    exact hnests

private theorem close_depth (block : OpenBlock) : block.close.depth = 0 := by
  obtain ⟨head, done, pending⟩ := block
  cases head <;> rfl

private theorem readBetween_nests {block : OpenBlock} {outer : List OpenBlock} {token : Token}
    {next : Config} (hread : readBetween block outer token = .ok next) :
    (Step.shift next).Nests (outerDepth (block :: outer)) token.kind := by
  unfold readBetween at hread
  split at hread
  · rename_i hkind
    cases hread
    rw [hkind]
    refine .shift ?_ (by simp)
    simp only [Config.depth, close_depth, outerDepth_cons, Kind.nesting]
    omega
  · rename_i hkind
    cases hread
    rw [hkind]
    refine ⟨by simp [Config.depth, Kind.nesting], fun _ => ?_⟩
    rw [outerDepth_cons]
    omega
  · cases hread
  · exact readStart_nests hread

private theorem endStmt_nests {stmt : Stmt} {outer : List OpenBlock} {token : Token} {step : Step}
    (hstep : endStmt stmt outer token = .ok step) : step.Nests (outerDepth outer) token.kind := by
  cases outer with
  | nil =>
    cases hstep
    rfl
  | cons block outer =>
    obtain ⟨next, hread, rfl⟩ := map_shift_eq_ok hstep
    have hnests := readBetween_nests hread
    rw [outerDepth_cons] at hnests ⊢
    exact hnests

/-- Completing operators closes no bracket. -/
theorem framesDepth_reduce (level : Nat) (expr : Expr) (frames : List Frame) :
    framesDepth (reduce level expr frames).2 = framesDepth frames := by
  fun_induction reduce level expr frames with
  | case1 expr op frames ih => rw [ih, framesDepth_cons, Frame.depth, Nat.zero_add]
  | case2 expr left op frames _ ih => rw [ih, framesDepth_cons, Frame.depth, Nat.zero_add]
  | case3 => rfl
  | case4 => rfl

/-- Operators leave the depth to what is around them, and a bracket that is closed is the one
that the innermost other frame has opened. -/
theorem settle_nests {goal : Goal} {outer : List OpenBlock} {token : Token} {expr : Expr}
    {frames : List Frame} {step : Step} (hstep : settle goal outer token expr frames = .ok step) :
    step.Nests (framesDepth frames + outerDepth outer) token.kind := by
  induction frames generalizing expr with
  | nil =>
    have hnests := endStmt_nests hstep
    rw [framesDepth_nil, Nat.zero_add]
    exact hnests
  | cons frame frames ih =>
    rw [framesDepth_cons]
    cases frame with
    | unary op | binary left op | ternaryNo test yes =>
      rw [Frame.depth, Nat.zero_add]
      exact ih hstep
    | ternaryYes test | key done =>
      refine demand_nests hstep (by decide) ?_
      simp only [Config.depth, Focus.depth, framesDepth_cons, Frame.depth, Kind.nesting]
      omega
    | group | index left | test =>
      refine demand_nests hstep (by decide) ?_
      simp only [Config.depth, Focus.depth, Frame.depth, Kind.nesting]
      omega
    | item head done =>
      refine demand_comma_nests hstep (by cases head <;> simp [ListHead.closing]) ?_ ?_
      · simp only [Config.depth, Focus.depth, framesDepth_cons, Frame.depth]
        omega
      · have hclosing : head.closing.nesting = -1 := by cases head <;> rfl
        simp only [Config.depth, Focus.depth, Frame.depth, hclosing]
        omega
    | value done key =>
      refine demand_comma_nests hstep (by decide) ?_ ?_
      · simp only [Config.depth, Focus.depth, framesDepth_cons, Frame.depth]
        omega
      · simp only [Config.depth, Focus.depth, Frame.depth, Kind.nesting]
        omega

private theorem readAfter_nests {expr : Expr} {pending : Pending} {outer : List OpenBlock}
    {token : Token} {step : Step} (hstep : readAfter expr pending outer token = .ok step) :
    step.Nests (framesDepth pending.frames + outerDepth outer) token.kind := by
  obtain ⟨kind, text⟩ := token
  unfold readAfter at hstep
  split at hstep
  · rename_i hkind
    cases hkind
    cases hstep
    refine .shift ?_ (by simp)
    simp only [Config.depth, Focus.depth, Kind.nesting]
    omega
  · rename_i hkind
    cases hkind
    cases hstep
    refine .shift ?_ (by simp)
    simp only [Config.depth, Focus.depth, Pending.push, framesDepth_cons, Frame.depth, Kind.nesting]
    omega
  · rename_i hkind
    cases hkind
    cases hstep
    refine .shift ?_ (by simp)
    simp only [Config.depth, Focus.depth, framesDepth_cons, framesDepth_reduce, Frame.depth,
      Kind.nesting]
    omega
  · split at hstep
    · rename_i op hop
      obtain rfl := BinaryOp.kind_of_ofKind?_eq_some hop
      cases hstep
      have hnesting : op.kind.nesting = 0 := by cases op <;> rfl
      refine .shift ?_ (by cases op <;> simp [BinaryOp.kind])
      simp only [Config.depth, Focus.depth, framesDepth_cons, framesDepth_reduce, Frame.depth,
        hnesting]
      omega
    · exact settle_nests hstep

private theorem readInside_nests {focus : Focus} {pending : Pending} {outer : List OpenBlock}
    {token : Token} {step : Step} (hstep : readInside focus pending outer token = .ok step) :
    step.Nests (focus.depth + framesDepth pending.frames + outerDepth outer) token.kind := by
  cases focus with
  | operand =>
    obtain ⟨next, hread, rfl⟩ := map_shift_eq_ok hstep
    rw [Focus.depth, Nat.zero_add]
    exact readOperand_nests hread
  | firstItem head =>
    simp only [readInside] at hstep
    split at hstep
    · rename_i hkind
      cases hstep
      have hclosing : head.closing.nesting = -1 := by cases head <;> rfl
      rw [hkind]
      refine .shift ?_ (by cases head <;> simp [ListHead.closing])
      simp only [Config.depth, Focus.depth, hclosing]
      omega
    · obtain ⟨next, hread, rfl⟩ := map_shift_eq_ok hstep
      have hnests := readOperand_nests hread
      rw [Pending.push, framesDepth_cons] at hnests
      exact hnests
  | firstPair =>
    simp only [readInside] at hstep
    split at hstep
    · rename_i hkind
      cases hstep
      rw [hkind]
      refine .shift ?_ (by simp)
      simp only [Config.depth, Focus.depth, Kind.nesting]
      omega
    · obtain ⟨next, hread, rfl⟩ := map_shift_eq_ok hstep
      have hnests := readOperand_nests hread
      rw [Pending.push, framesDepth_cons] at hnests
      exact hnests
  | after expr =>
    rw [Focus.depth, Nat.zero_add]
    exact readAfter_nests hstep
  | mayElse test yes =>
    simp only [readInside] at hstep
    rw [Focus.depth, Nat.zero_add]
    split at hstep
    · rename_i hkind
      cases hstep
      rw [hkind]
      refine .shift ?_ (by simp)
      simp only [Config.depth, Focus.depth, Kind.nesting]
      omega
    · exact readAfter_nests hstep
  | firstParam =>
    simp only [readInside] at hstep
    split at hstep
    · rename_i hkind
      cases hstep
      rw [hkind]
      refine .shift ?_ (by simp)
      simp only [Config.depth, Focus.depth, Kind.nesting]
      omega
    · refine demand_nests hstep (by decide) ?_
      simp only [Config.depth, Focus.depth, Kind.nesting]
      omega
  | afterParam done =>
    refine demand_comma_nests hstep (by decide) ?_ ?_
    · simp only [Config.depth, Focus.depth]
    · simp only [Config.depth, Focus.depth, Kind.nesting]
      omega
  | ifParen | fnParen | param done =>
    refine demand_nests hstep (by decide) ?_
    simp only [Config.depth, Focus.depth, Pending.push, framesDepth_cons, Frame.depth, Kind.nesting]
    omega
  | openBlock head =>
    refine demand_nests hstep (by decide) ?_
    simp only [Config.depth, Focus.depth, outerDepth_cons, Kind.nesting]
    omega

/-- The brackets that are open after a step are those before it and the one that the token
opens or closes. A statement that is complete leaves none open. -/
theorem Config.step_nests {config : Config} {token : Token} {step : Step}
    (hstep : config.step token = .ok step) : step.Nests config.depth token.kind := by
  cases config with
  | between block outer =>
    obtain ⟨next, hread, rfl⟩ := map_shift_eq_ok hstep
    exact readBetween_nests hread
  | head part outer =>
    cases part with
    | start =>
      obtain ⟨next, hread, rfl⟩ := map_shift_eq_ok hstep
      exact readStart_nests hread
    | letName | letAssign name =>
      refine demand_nests hstep (by decide) ?_
      simp [Config.depth, Focus.depth, framesDepth_nil, Kind.nesting]
    | retValue =>
      simp only [Config.step, readHead] at hstep
      split at hstep
      iterate 3 exact endStmt_nests hstep
      obtain ⟨next, hread, rfl⟩ := map_shift_eq_ok hstep
      have hnests := readOperand_nests hread
      rw [framesDepth_nil, Nat.zero_add] at hnests
      exact hnests
  | inside focus pending outer => exact readInside_nests hstep

end Parser

end MonkeyLang
