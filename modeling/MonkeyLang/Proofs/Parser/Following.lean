import MonkeyLang.Proofs.Parser.Completeness
import MonkeyLang.Proofs.Parser.Rules

namespace MonkeyLang

open MonkeyLang.Parser

/-- How reading one statement ends. -/
abbrev Reading := Except SyntaxError (Stmt × List Token)

/-- Following a rule agrees with reading the statement around it. Behind what the rule reads, the
statement is what is read from there on, and if the rule fails so does the statement, for the same
reason. Where the rule does not apply something is known, and nothing else can happen. -/
def Follows {α : Type} (whole : Reading) (after : α → List Token → Reading)
    (ends : α → List Token → Prop) (refuses : Prop) : Except Stop (α × List Token) → Prop
  | .ok (value, rest) => ends value rest ∧ whole = after value rest
  | .error (.refused _) => refuses
  | .error (.failed (.named error)) => whole = .error error
  | .error _ => False

namespace Follows

variable {α β : Type} {whole : Reading} {tokens : List Token}

section

variable {after other : α → List Token → Reading} {ends final : α → List Token → Prop}
  {refuses declines : Prop} {outcome : Except Stop (α × List Token)}

theorem imp (hfollows : Follows whole after ends refuses outcome)
    (hends : ∀ value rest, ends value rest → final value rest ∧ after value rest = other value rest)
    (hrefuses : refuses → declines) : Follows whole other final declines outcome := by
  match outcome, hfollows with
  | .ok (value, rest), hok =>
    obtain ⟨hfinal, hsame⟩ := hends value rest hok.1
    exact ⟨hfinal, hok.2.trans hsame⟩
  | .error (.refused _), hrefused => exact hrefuses hrefused
  | .error (.failed (.named _)), hfailed => exact hfailed

theorem pure {value : α} (hends : ends value tokens) (hwhole : whole = after value tokens) :
    Follows whole after ends refuses ((Pure.pure value : Rule α) tokens) :=
  ⟨hends, hwhole⟩

end

theorem map {after : β → List Token → Reading} {ends : β → List Token → Prop} {refuses : Prop}
    {outcome : Except Stop (α × List Token)} {build : α → β}
    (hfollows : Follows whole (fun value => after (build value)) (fun value => ends (build value))
      refuses outcome) :
    Follows whole after ends refuses (outcome.map fun (value, rest) => (build value, rest)) := by
  match outcome, hfollows with
  | .ok (value, rest), hok => exact hok
  | .error (.refused _), hrefused => exact hrefused
  | .error (.failed (.named _)), hfailed => exact hfailed

/-- A rule that stops for good stops whatever it is a part of. -/
theorem of_error {after : α → List Token → Reading} {ends : α → List Token → Prop}
    {other : β → List Token → Reading} {final : β → List Token → Prop} {refuses declines : Prop}
    {stop : Stop} (hfollows : Follows whole after ends refuses (.error stop))
    (hstop : ∀ reason, stop ≠ .refused reason) :
    Follows whole other final declines (.error stop) := by
  match stop, hfollows with
  | .refused reason, _ => exact absurd rfl (hstop reason)
  | .failed (.named _), hfailed => exact hfailed

theorem bind {middle : α → List Token → Reading} {after : β → List Token → Reading}
    {through : α → List Token → Prop} {ends : β → List Token → Prop} {refuses : Prop}
    {rule : Rule α} {next : α → Rule β}
    (hrule : Follows whole middle through refuses (rule tokens))
    (hnext : ∀ value rest, through value rest →
      Follows (middle value rest) after ends False (next value rest)) :
    Follows whole after ends refuses ((rule >>= next) tokens) := by
  simp only [Bind.bind, StateT.bind, Except.bind]
  match rule tokens, hrule with
  | .ok (value, rest), hok =>
    rw [hok.2]
    exact (hnext value rest hok.1).imp (fun _ _ hends => ⟨hends, rfl⟩) False.elim
  | .error (.refused _), hrefused => exact hrefused
  | .error (.failed (.named _)), hfailed => exact hfailed

/-- A token that is taken stands first. -/
theorem token {after : Token → List Token → Reading} {kind : Kind} (hkind : kind ≠ .eof)
    (hwhole : ∀ token rest, tokens = token :: rest → token.kind = kind → whole = after token rest) :
    Follows whole after (fun token rest => tokens = token :: rest ∧ token.kind = kind)
      (nextKind tokens ≠ kind) (Rule.token kind tokens) := by
  cases tokens with
  | nil => exact hkind.symm
  | cons token rest =>
    rw [Rule.token]
    split
    · rename_i htoken
      exact ⟨⟨rfl, htoken⟩, hwhole token rest rfl htoken⟩
    · assumption

section

variable {after : α → List Token → Reading} {ends : α → List Token → Prop} {refuses : Prop}
  {rule : Rule α}

theorem orFail {reason : Kind → SyntaxError}
    (hrule : Follows whole after ends refuses (rule tokens))
    (hrefuses : refuses → whole = .error (reason (nextKind tokens))) :
    Follows whole after ends False (Rule.orFail reason rule tokens) := by
  rw [Rule.orFail]
  match rule tokens, hrule with
  | .ok (value, rest), hok => exact hok
  | .error (.refused _), hrefused => exact hrefuses hrefused
  | .error (.failed (.named _)), hfailed => exact hfailed

theorem alternative {declines : Prop} {other : Rule α}
    (hrule : Follows whole after ends refuses (rule tokens))
    (hother : refuses → Follows whole after ends declines (other tokens)) :
    Follows whole after ends declines (Rule.alternative rule other tokens) := by
  rw [Rule.alternative]
  match rule tokens, hrule with
  | .ok (value, rest), hok => exact hok
  | .error (.refused _), hrefused => exact hother hrefused
  | .error (.failed (.named _)), hfailed => exact hfailed

theorem opt {after : Option α → List Token → Reading} {ends : Option α → List Token → Prop}
    (hrule : Follows whole (fun value => after (some value)) (fun value => ends (some value))
      refuses (rule tokens))
    (hnone : refuses → ends none tokens ∧ whole = after none tokens) :
    Follows whole after ends False (Rule.opt rule tokens) := by
  rw [Rule.opt]
  match rule tokens, hrule with
  | .ok (value, rest), hok => exact hok
  | .error (.refused _), hrefused => exact hnone hrefused
  | .error (.failed (.named _)), hfailed => exact hfailed

end

/-- Each item of a repetition is read on top of those before it. The induction is on the number of
tokens, of which every item takes some. -/
theorem many {item : Rule α} {start : β → List Token → Reading} {grow : β → α → β} {bound : Nat}
    {ends stops : List Token → Prop}
    (hitem : ∀ base tokens, tokens.length < bound → ends tokens →
      Follows (start base tokens) (fun value => start (grow base value))
        (fun _ rest => rest.length < tokens.length ∧ ends rest) (stops tokens) (item tokens))
    (base : β) (tokens : List Token) (hbound : tokens.length < bound) (hends : ends tokens) :
    Follows (start base tokens) (fun values => start (values.foldl grow base))
      (fun _ rest => rest.length ≤ tokens.length ∧ ends rest ∧ stops rest) False
      (Rule.many item tokens) := by
  fun_induction Rule.many item tokens generalizing base with
  | case1 tokens reason hrefused =>
    have hfirst := hitem base tokens hbound hends
    rw [hrefused] at hfirst
    exact ⟨⟨Nat.le_refl _, hends, hfirst⟩, rfl⟩
  | case2 tokens stop hnot hstop =>
    have hfirst := hitem base tokens hbound hends
    rw [hstop] at hfirst
    exact hfirst.of_error hnot
  | case3 tokens value rest hvalue hshorter ih =>
    have hfirst := hitem base tokens hbound hends
    rw [hvalue] at hfirst
    obtain ⟨⟨-, hrest⟩, hwhole⟩ := hfirst
    have hothers := ih (grow base value) (by omega) hrest
    rw [hwhole]
    refine map (hothers.imp (fun _ left hleft => ?_) id)
    exact ⟨⟨Nat.le_trans hleft.1 (Nat.le_of_lt hshorter), hleft.2⟩, rfl⟩
  | case4 tokens value rest hvalue hlonger =>
    have hfirst := hitem base tokens hbound hends
    rw [hvalue] at hfirst
    exact hlonger hfirst.1.1

/-- Each item of a list is read behind those before it, up to the token that closes the list. -/
theorem itemsFrom {item : Rule α} {close : Kind} {start after : List α → List Token → Reading}
    {middle : List α → α → List Token → Reading} {bound : Nat} {ends : List Token → Prop}
    (hitem : ∀ done tokens, tokens.length < bound →
      Follows (start done tokens) (middle done)
        (fun _ rest => rest.length < tokens.length ∧ ends rest) False (item tokens))
    (hmiddle : ∀ done value rest, ends rest → middle done value rest =
      if nextKind rest = .comma then start (done ++ [value]) rest.tail
      else if nextKind rest = close then after (done ++ [value]) rest.tail
      else .error (.expected close (nextKind rest)))
    (done : List α) (tokens : List Token) (hbound : tokens.length < bound) :
    Follows (start done tokens) (fun items => after (done ++ items))
      (fun _ rest => rest.length < tokens.length) False (Rule.itemsFrom close item tokens) := by
  fun_induction Rule.itemsFrom close item tokens generalizing done with
  | case1 tokens stop hstop =>
    have hfirst := hitem done tokens hbound
    rw [hstop] at hfirst
    refine hfirst.of_error ?_
    rintro reason rfl
    exact hfirst
  | case2 tokens value rest hvalue hcomma hshorter ih =>
    have hfirst := hitem done tokens hbound
    rw [hvalue] at hfirst
    obtain ⟨⟨hrest, hends⟩, hwhole⟩ := hfirst
    have hothers := ih (done ++ [value]) (by omega)
    rw [hwhole, hmiddle done value rest hends, if_pos hcomma]
    refine map (hothers.imp (fun _ left hleft => ?_) id)
    rw [List.append_assoc, List.singleton_append]
    exact ⟨Nat.lt_trans hleft hshorter, rfl⟩
  | case3 tokens value rest hvalue hcomma hlonger =>
    have hfirst := hitem done tokens hbound
    rw [hvalue] at hfirst
    have hrest := hfirst.1.1
    rw [List.length_tail] at hlonger
    omega
  | case4 tokens value rest hvalue hcomma hclose =>
    have hfirst := hitem done tokens hbound
    rw [hvalue] at hfirst
    obtain ⟨⟨hrest, hends⟩, hwhole⟩ := hfirst
    have hshorter : rest.tail.length < tokens.length := by
      rw [List.length_tail]
      omega
    rw [hwhole, hmiddle done value rest hends, if_neg hcomma, if_pos hclose]
    exact ⟨hshorter, rfl⟩
  | case5 tokens value rest hvalue hcomma hclose =>
    have hfirst := hitem done tokens hbound
    rw [hvalue] at hfirst
    obtain ⟨⟨-, hends⟩, hwhole⟩ := hfirst
    rw [hwhole, hmiddle done value rest hends, if_neg hcomma, if_neg hclose]
    rfl

/-- A list begins like its first item unless it is closed at once. -/
theorem separated {item : Rule α} {opening close : Kind} (hopening : opening ≠ .eof)
    {first : List Token → Reading} {start after : List α → List Token → Reading}
    {middle : List α → α → List Token → Reading} {bound : Nat} {ends : List Token → Prop}
    (hwhole : ∀ token rest, tokens = token :: rest → token.kind = opening → whole = first rest)
    (hfirst : ∀ rest, first rest =
      if nextKind rest = close then after [] rest.tail else start [] rest)
    (hitem : ∀ done tokens, tokens.length < bound →
      Follows (start done tokens) (middle done)
        (fun _ rest => rest.length < tokens.length ∧ ends rest) False (item tokens))
    (hmiddle : ∀ done value rest, ends rest → middle done value rest =
      if nextKind rest = .comma then start (done ++ [value]) rest.tail
      else if nextKind rest = close then after (done ++ [value]) rest.tail
      else .error (.expected close (nextKind rest)))
    (hbound : tokens.length ≤ bound) :
    Follows whole after (fun _ rest => rest.length < tokens.length) (nextKind tokens ≠ opening)
      (Rule.separated opening close item tokens) := by
  refine bind (token hopening hwhole) ?_
  rintro next rest ⟨rfl, -⟩
  rw [List.length_cons] at hbound ⊢
  rw [hfirst rest]
  split
  · have hshorter : rest.tail.length < rest.length + 1 := by
      rw [List.length_tail]
      omega
    exact ⟨hshorter, rfl⟩
  · refine (itemsFrom hitem hmiddle [] rest hbound).imp (fun _ left hleft => ?_) id
    exact ⟨Nat.lt_succ_of_lt hleft, rfl⟩

/-- The statements of a block are read one behind the other, up to the brace that closes it. -/
theorem stmtsFrom {stmt : Rule Stmt} (start after : List Stmt → List Token → Reading) {bound : Nat}
    (hstmt : ∀ done tokens, tokens.length < bound → (nextKind tokens ≠ .rbrace) →
      nextKind tokens ≠ .semicolon → nextKind tokens ≠ .eof →
      Follows (start done tokens) (fun value => start (done ++ [value]))
        (fun _ rest => rest.length < tokens.length) False (stmt tokens))
    (hclose : ∀ done token rest, token.kind = .rbrace →
      start done (token :: rest) = after done rest)
    (hskip : ∀ done token rest, token.kind = .semicolon →
      start done (token :: rest) = start done rest)
    (hend : ∀ done tokens, nextKind tokens = .eof →
      start done tokens = .error (.expected .rbrace .eof))
    (done : List Stmt) (tokens : List Token) (hbound : tokens.length < bound) :
    Follows (start done tokens) (fun stmts => after (done ++ stmts))
      (fun _ rest => rest.length < tokens.length) False (Rule.stmtsFrom stmt tokens) := by
  fun_induction Rule.stmtsFrom stmt tokens generalizing done with
  | case1 => exact hend done [] rfl
  | case2 token rest hkind =>
    rw [hclose done token rest hkind]
    refine ⟨Nat.lt_succ_self _, ?_⟩
    dsimp only
    rw [List.append_nil]
  | case3 token rest hkind ih =>
    rw [List.length_cons] at hbound
    rw [hskip done token rest hkind]
    refine (ih done (by omega)).imp (fun _ left hleft => ?_) id
    exact ⟨Nat.lt_succ_of_lt hleft, rfl⟩
  | case4 token rest hkind => exact hend done _ hkind
  | case5 token rest stop hstop hclosing hsemicolon heof =>
    have hfirst := hstmt done _ hbound hclosing hsemicolon heof
    rw [hstop] at hfirst
    refine hfirst.of_error ?_
    rintro reason rfl
    exact hfirst
  | case6 token rest value left hvalue hshorter hclosing hsemicolon heof ih =>
    have hfirst := hstmt done _ hbound hclosing hsemicolon heof
    rw [hvalue] at hfirst
    rw [List.length_cons] at hbound
    rw [hfirst.2]
    refine map ((ih (done ++ [value]) (by omega)).imp (fun _ last hlast => ?_) id)
    rw [List.append_assoc, List.singleton_append]
    exact ⟨Nat.lt_trans hlast hshorter, rfl⟩
  | case7 token rest value left hvalue hlonger hclosing hsemicolon heof =>
    have hfirst := hstmt done _ hbound hclosing hsemicolon heof
    rw [hvalue] at hfirst
    exact hlonger hfirst.1

end Follows

end MonkeyLang
