-- SUMMARY: The grammar of blocks, and a machine with a stack that accepts just the sentences of it.
import ConsoleScript.Directive

/-!
# The grammar of blocks

Which lines may follow each other depends on the part that each line plays only:
its token. `Derives` is the grammar of the token sequences that are scripts:

* a script is a sequence of items and functions,
* a function holds items up to its end,
* a loop owns the texts that follow it, and a condition owns texts, maybe an
  alternative with texts of its own, and maybe an end,
* a switch holds cases and at most one default, each with items, maybe an end
  and blanks after that.

`Shape` is a machine that takes one token at a time and keeps a stack of what is
open. It accepts exactly what the grammar derives: `accepts_iff_derives`.
-/

namespace ConsoleScript

/-- The part that a line plays among the lines around it. -/
inductive Token where
  /-- A blank line or a comment. -/
  | blank
  /-- A text or an assignment. -/
  | text
  /-- A directive that owns no other line and ends nothing. -/
  | simple
  | endIf
  | loop
  | condition
  | otherwise
  | switch
  | case
  | default
  | endCase
  | endSwitch
  | function (name : String)
  | endFunction
  deriving DecidableEq, Repr

/-- The part that a directive plays. -/
def Directive.token : Directive → Token
  | .action .endIf => .endIf
  | .action _ => .simple
  | .loop _ => .loop
  | .condition _ => .condition
  | .switch _ => .switch
  | .marker .otherwise => .otherwise
  | .marker (.case _) => .case
  | .marker .default => .default
  | .marker .endCase => .endCase
  | .marker .endSwitch => .endSwitch
  | .marker (.function name) => .function name
  | .marker .endFunction => .endFunction

/-! ## The grammar -/

namespace Grammar

/-- The symbols of the grammar. -/
inductive Symbol where
  | script
  | function
  | item
  | items
  /-- The `<else>` of a condition and its texts, or nothing. -/
  | alternative
  /-- The `<end-if>` of a condition, or nothing. -/
  | stop
  /-- The cases of a switch, with the number of defaults among them. -/
  | cases (defaults : Nat)
  /-- The `<end-case>` of a case and the blanks after it, or nothing. -/
  | closing

/-- The token sequences of a symbol. -/
inductive Derives : Symbol → List Token → Prop where
  | script_nil : Derives .script []
  | script_item {ts rest : List Token} (item : Derives .item ts) (more : Derives .script rest) :
      Derives .script (ts ++ rest)
  | script_function {ts rest : List Token} (function : Derives .function ts)
      (more : Derives .script rest) : Derives .script (ts ++ rest)
  | function {body : List Token} (name : String) (items : Derives .items body) :
      Derives .function (.function name :: (body ++ [.endFunction]))
  | items_nil : Derives .items []
  | items_cons {ts rest : List Token} (item : Derives .item ts) (more : Derives .items rest) :
      Derives .items (ts ++ rest)
  | blank : Derives .item [.blank]
  | text : Derives .item [.text]
  | endIf : Derives .item [.endIf]
  | simple : Derives .item [.simple]
  | loop (n : Nat) : Derives .item (.loop :: List.replicate n .text)
  | condition {other stop : List Token} (n : Nat) (alternative : Derives .alternative other)
      (stops : Derives .stop stop) :
      Derives .item (.condition :: (List.replicate n .text ++ (other ++ stop)))
  | alternative_none : Derives .alternative []
  | alternative (n : Nat) : Derives .alternative (.otherwise :: List.replicate n .text)
  | stop_none : Derives .stop []
  | stop : Derives .stop [.endIf]
  | switch {defaults : Nat} {parts : List Token} (n : Nat) (cases : Derives (.cases defaults) parts)
      (once : defaults ≤ 1) :
      Derives .item (.switch :: (List.replicate n .blank ++ (parts ++ [.endSwitch])))
  | cases_nil : Derives (.cases 0) []
  | case {defaults : Nat} {body closing rest : List Token} (items : Derives .items body)
      (closes : Derives .closing closing) (more : Derives (.cases defaults) rest) :
      Derives (.cases defaults) (.case :: (body ++ (closing ++ rest)))
  | default {defaults : Nat} {body closing rest : List Token} (items : Derives .items body)
      (closes : Derives .closing closing) (more : Derives (.cases defaults) rest) :
      Derives (.cases (defaults + 1)) (.default :: (body ++ (closing ++ rest)))
  | closing_none : Derives .closing []
  | closing (n : Nat) : Derives .closing (.endCase :: List.replicate n .blank)

end Grammar

/-! ## The machine -/

namespace Shape

/-- An implicit body that is open. -/
inductive Block where
  | loop
  | inThen
  | inElse
  deriving DecidableEq, Repr

/-- An explicit body that is open. Of a switch counts whether it has a default, the
    one at hand included. -/
inductive Frame where
  | function
  | switch (hasDefault : Bool)
  | case (hasDefault : Bool)
  deriving DecidableEq, Repr

end Shape

/-- What is open at some point of a script. -/
structure Shape where
  block : Option Shape.Block
  frames : List Shape.Frame
  deriving DecidableEq, Repr

namespace Shape

/-- Nothing is open. -/
def start : Shape := ⟨none, []⟩

/-- A token where any item may stand. -/
def item (frames : List Frame) : Token → Option Shape
  | .blank | .text | .simple | .endIf => some ⟨none, frames⟩
  | .loop => some ⟨some .loop, frames⟩
  | .condition => some ⟨some .inThen, frames⟩
  | .switch => some ⟨none, .switch false :: frames⟩
  | .function _ => if frames.isEmpty then some ⟨none, [.function]⟩ else none
  | _ => none

/-- A token in a switch, outside of its cases. -/
def betweenCases (hasDefault : Bool) (frames : List Frame) : Token → Option Shape
  | .blank => some ⟨none, .switch hasDefault :: frames⟩
  | .endSwitch => some ⟨none, frames⟩
  | .case => some ⟨none, .case hasDefault :: frames⟩
  | .default => if hasDefault then none else some ⟨none, .case true :: frames⟩
  | _ => none

/-- A token outside of implicit bodies. -/
def place : List Frame → Token → Option Shape
  | .function :: frames, .endFunction => some ⟨none, frames⟩
  | .switch hasDefault :: frames, t => betweenCases hasDefault frames t
  | .case hasDefault :: frames, .endCase => some ⟨none, .switch hasDefault :: frames⟩
  | .case hasDefault :: frames, .case => betweenCases hasDefault frames .case
  | .case hasDefault :: frames, .default => betweenCases hasDefault frames .default
  | .case hasDefault :: frames, .endSwitch => betweenCases hasDefault frames .endSwitch
  | frames, t => item frames t

/-- The next token. -/
def step (s : Shape) (t : Token) : Option Shape :=
  match s.block, t with
  | some _, .text => some s
  | some .inThen, .otherwise => some ⟨some .inElse, s.frames⟩
  | some .inThen, .endIf | some .inElse, .endIf => some ⟨none, s.frames⟩
  | _, t => place s.frames t

/-- All tokens one after the other. -/
def run (s : Shape) (ts : List Token) : Option Shape := ts.foldlM step s

/-- The tokens are taken, and leave no explicit body open. -/
def Accepts (s : Shape) (ts : List Token) : Prop := ∃ block, s.run ts = some ⟨block, []⟩

@[simp] theorem run_nil (s : Shape) : s.run [] = some s := rfl

@[simp] theorem run_cons (s : Shape) (t : Token) (ts : List Token) :
    s.run (t :: ts) = (s.step t).bind (·.run ts) := List.foldlM_cons

@[simp] theorem run_append (s : Shape) (ts us : List Token) :
    s.run (ts ++ us) = (s.run ts).bind (·.run us) := List.foldlM_append

theorem accepts_cons {s : Shape} {t : Token} {ts : List Token} :
    s.Accepts (t :: ts) ↔ ∃ s', s.step t = some s' ∧ s'.Accepts ts := by
  simp only [Accepts, run_cons, Option.bind_eq_some_iff]
  constructor
  · rintro ⟨block, s', hstep, hrun⟩
    exact ⟨s', hstep, block, hrun⟩
  · rintro ⟨s', hstep, block, hrun⟩
    exact ⟨block, s', hstep, hrun⟩

/-- What an implicit body makes of a token that belongs to it. -/
inductive Absorbs : Block → Token → Option Block → Prop where
  | text (block : Block) : Absorbs block .text (some block)
  | otherwise : Absorbs .inThen .otherwise (some .inElse)
  | stopThen : Absorbs .inThen .endIf none
  | stopElse : Absorbs .inElse .endIf none

/-- A token belongs to the implicit body that is open, or is placed after it. -/
theorem step_eq (s : Shape) (t : Token) :
    s.step t = place s.frames t ∨
      ∃ block block', s.block = some block ∧ Absorbs block t block' ∧
        s.step t = some ⟨block', s.frames⟩ := by
  unfold step
  split
  · next block hblock => exact .inr ⟨block, some block, hblock, .text block, by rw [← hblock]⟩
  · next hblock => exact .inr ⟨_, _, hblock, .otherwise, rfl⟩
  · next hblock => exact .inr ⟨_, _, hblock, .stopThen, rfl⟩
  · next hblock => exact .inr ⟨_, _, hblock, .stopElse, rfl⟩
  · exact .inl rfl

/-! ## Everything that is derived is accepted -/

/-- Any item may stand next: not between the cases of a switch. -/
def TakesItems (frames : List Frame) : Prop :=
  ∀ hasDefault rest, frames ≠ .switch hasDefault :: rest

/-- The next case of a switch, or its end, may stand next. -/
inductive AtMarker (hasDefault : Bool) (frames : List Frame) : Shape → Prop where
  | between : AtMarker hasDefault frames ⟨none, .switch hasDefault :: frames⟩
  | inCase (block : Option Block) : AtMarker hasDefault frames ⟨block, .case hasDefault :: frames⟩

theorem place_item {frames : List Frame} (h : TakesItems frames) {t : Token}
    (ht : (item [] t).isSome = true) : place frames t = item frames t := by
  match frames with
  | [] => rfl
  | .function :: _ =>
    cases t with
    | endFunction => cases ht
    | _ => rfl
  | .switch hasDefault :: rest => exact absurd rfl (h hasDefault rest)
  | .case _ :: _ =>
    cases t with
    | case | default | endCase | endSwitch => cases ht
    | _ => rfl

/-- A token that opens something ends an implicit body. -/
theorem step_opening (block : Option Block) {frames : List Frame} (h : TakesItems frames)
    {t : Token} (ht : t = .loop ∨ t = .condition ∨ t = .switch) :
    step ⟨block, frames⟩ t = item frames t := by
  rcases ht with rfl | rfl | rfl
  all_goals
    rw [← place_item h (by rfl)]
    rcases block with _ | _ | _ | _ <;> rfl

/-- Texts belong to the implicit body that is open. -/
theorem run_texts (block : Block) (frames : List Frame) (n : Nat) :
    run ⟨some block, frames⟩ (List.replicate n .text) = some ⟨some block, frames⟩ := by
  induction n with
  | zero => rfl
  | succ n ih => rw [List.replicate_succ, run_cons]; exact ih

theorem run_blanks (hasDefault : Bool) (frames : List Frame) (n : Nat) :
    run ⟨none, .switch hasDefault :: frames⟩ (List.replicate n .blank) =
      some ⟨none, .switch hasDefault :: frames⟩ := by
  induction n with
  | zero => rfl
  | succ n ih => rw [List.replicate_succ, run_cons]; exact ih

theorem AtMarker.step_eq {hasDefault : Bool} {frames : List Frame} {s : Shape}
    (h : AtMarker hasDefault frames s) {t : Token} (ht : t = .case ∨ t = .default ∨ t = .endSwitch) :
    s.step t = betweenCases hasDefault frames t := by
  cases h with
  | between => rfl
  | inCase block =>
    rcases ht with rfl | rfl | rfl
    all_goals rcases block with _ | _ | _ | _ <;> rfl

open Grammar (Symbol Derives)

/-- What the machine does with a sentence of a symbol where the symbol may stand. -/
def Takes (ts : List Token) : Symbol → Prop
  | .script => ∀ block, ∃ block', run ⟨block, []⟩ ts = some ⟨block', []⟩
  | .function => ∀ block, run ⟨block, []⟩ ts = some start
  | .item | .items => ∀ block frames, TakesItems frames →
      ∃ block', run ⟨block, frames⟩ ts = some ⟨block', frames⟩
  | .alternative => ∀ frames, ∃ block, run ⟨some .inThen, frames⟩ ts = some ⟨block, frames⟩ ∧
      (block = some .inThen ∨ block = some .inElse)
  | .stop => ∀ block frames, block = some .inThen ∨ block = some .inElse →
      ∃ block', run ⟨block, frames⟩ ts = some ⟨block', frames⟩
  | .cases defaults => ∀ hasDefault frames s, AtMarker hasDefault frames s →
      defaults + hasDefault.toNat ≤ 1 →
      ∃ hasDefault' s', s.run ts = some s' ∧ AtMarker hasDefault' frames s'
  | .closing => ∀ hasDefault block frames,
      ∃ s', run ⟨block, .case hasDefault :: frames⟩ ts = some s' ∧ AtMarker hasDefault frames s'

/-- Tokens that open nothing are taken wherever items are. -/
theorem takes_single {t : Token} (ht : item [] t = some start) : Takes [t] .item := by
  intro block frames htakes
  have hplace : place frames t = some ⟨none, frames⟩ := by
    rw [place_item htakes (by rw [ht]; rfl)]
    cases t with
    | blank | text | simple | endIf => rfl
    | _ => cases ht
  rw [run_cons]
  rcases step_eq ⟨block, frames⟩ t with hstep | ⟨_, block', -, -, hstep⟩
  · exact ⟨none, by rw [hstep, hplace]; rfl⟩
  · exact ⟨block', by rw [hstep]; rfl⟩

theorem takesItems_case (hasDefault : Bool) (frames : List Frame) :
    TakesItems (.case hasDefault :: frames) := by
  intro _ _ h
  cases h

/-- The marker, the items and the end of a case, and the cases after it. -/
theorem takes_case {marker : Token} {body closing rest : List Token} {defaults : Nat}
    {hasDefault : Bool} {frames : List Frame} {s : Shape}
    (hmarker : s.step marker = some ⟨none, .case hasDefault :: frames⟩)
    (hbody : Takes body .items) (hclosing : Takes closing .closing)
    (hrest : Takes rest (.cases defaults)) (honce : defaults + hasDefault.toNat ≤ 1) :
    ∃ last s', s.run (marker :: (body ++ (closing ++ rest))) = some s' ∧ AtMarker last frames s' := by
  obtain ⟨block, hrun⟩ := hbody none _ (takesItems_case hasDefault frames)
  obtain ⟨s₁, hrun₁, hat⟩ := hclosing hasDefault block frames
  obtain ⟨last, s₂, hrun₂, hat₂⟩ := hrest hasDefault frames s₁ hat honce
  exact ⟨last, s₂, by simp [hmarker, hrun, hrun₁, hrun₂], hat₂⟩

theorem takes_of_derives {symbol : Symbol} {ts : List Token} (h : Derives symbol ts) :
    Takes ts symbol := by
  induction h with
  | script_nil => exact fun block => ⟨block, rfl⟩
  | script_item _ _ hitem hmore =>
    intro block
    obtain ⟨block₁, hrun₁⟩ := hitem block [] (by intro _ _ h; cases h)
    obtain ⟨block₂, hrun₂⟩ := hmore block₁
    exact ⟨block₂, by simp [hrun₁, hrun₂]⟩
  | script_function _ _ hfunction hmore =>
    intro block
    obtain ⟨block', hrun⟩ := hmore none
    exact ⟨block', by rw [run_append, hfunction block]; exact hrun⟩
  | function name _ hitems =>
    intro block
    obtain ⟨block', hrun⟩ := hitems none [.function] (by intro _ _ h; cases h)
    have hopen : step ⟨block, []⟩ (.function name) = some ⟨none, [.function]⟩ := by
      rcases block with _ | _ | _ | _ <;> rfl
    have hclose : step ⟨block', [.function]⟩ .endFunction = some start := by
      rcases block' with _ | _ | _ | _ <;> rfl
    simp [hopen, hrun, hclose]
  | items_nil => exact fun block frames _ => ⟨block, rfl⟩
  | items_cons _ _ hitem hmore =>
    intro block frames htakes
    obtain ⟨block₁, hrun₁⟩ := hitem block frames htakes
    obtain ⟨block₂, hrun₂⟩ := hmore block₁ frames htakes
    exact ⟨block₂, by simp [hrun₁, hrun₂]⟩
  | blank | text | endIf | simple => exact takes_single rfl
  | loop n =>
    intro block frames htakes
    refine ⟨some .loop, ?_⟩
    rw [run_cons, step_opening block htakes (.inl rfl)]
    exact run_texts .loop frames n
  | condition n _ _ halternative hstop =>
    intro block frames htakes
    obtain ⟨block₁, hrun₁, hblock⟩ := halternative frames
    obtain ⟨block₂, hrun₂⟩ := hstop block₁ frames hblock
    refine ⟨block₂, ?_⟩
    rw [run_cons, step_opening block htakes (.inr (.inl rfl))]
    simp [item, run_texts, hrun₁, hrun₂]
  | alternative_none => exact fun frames => ⟨some .inThen, rfl, .inl rfl⟩
  | alternative n => exact fun frames => ⟨some .inElse, run_texts .inElse frames n, .inr rfl⟩
  | stop_none => exact fun block frames _ => ⟨block, rfl⟩
  | stop =>
    rintro block frames (rfl | rfl)
    · exact ⟨none, rfl⟩
    · exact ⟨none, rfl⟩
  | switch n _ honce hcases =>
    intro block frames htakes
    obtain ⟨last, s', hrun, hat⟩ := hcases false frames _ .between honce
    refine ⟨none, ?_⟩
    rw [run_cons, step_opening block htakes (.inr (.inr rfl))]
    simp [item, run_blanks, hrun, hat.step_eq (.inr (.inr rfl)), betweenCases]
  | cases_nil => exact fun hasDefault frames s hat _ => ⟨hasDefault, s, rfl, hat⟩
  | case _ _ _ hbody hclosing hrest =>
    intro hasDefault frames s hat honce
    refine takes_case ?_ hbody hclosing hrest honce
    rw [hat.step_eq (.inl rfl), betweenCases]
  | default _ _ _ hbody hclosing hrest =>
    intro hasDefault frames s hat honce
    have hfirst : hasDefault = false := by
      cases hasDefault with
      | false => rfl
      | true => simp at honce
    subst hfirst
    have hmarker : s.step .default = some ⟨none, .case true :: frames⟩ :=
      hat.step_eq (.inr (.inl rfl))
    exact takes_case hmarker hbody hclosing hrest (by simpa using honce)
  | closing_none =>
    intro hasDefault block frames
    exact ⟨_, rfl, .inCase block⟩
  | closing n =>
    intro hasDefault block frames
    refine ⟨_, ?_, .between⟩
    have hstep : step ⟨block, .case hasDefault :: frames⟩ .endCase =
        some ⟨none, .switch hasDefault :: frames⟩ := by
      rcases block with _ | _ | _ | _ <;> rfl
    rw [run_cons, hstep]
    exact run_blanks hasDefault frames n

/-! ## Everything that is accepted is derived -/

/-- Cases of a switch up to its end, after which `rest` follows. -/
def Cases (hasDefault : Bool) (ts rest : List Token) : Prop :=
  ∃ defaults parts, ts = parts ++ .endSwitch :: rest ∧ Derives (.cases defaults) parts ∧
    defaults + hasDefault.toNat ≤ 1

/-- The tokens complete what is open, and go on as a script does. -/
def Completes : List Frame → List Token → Prop
  | [], ts => Derives .script ts
  | .function :: frames, ts =>
    ∃ body rest, ts = body ++ .endFunction :: rest ∧ Derives .items body ∧ Completes frames rest
  | .switch hasDefault :: frames, ts =>
    ∃ n parts rest, ts = List.replicate n .blank ++ parts ∧ Cases hasDefault parts rest ∧
      Completes frames rest
  | .case hasDefault :: frames, ts =>
    ∃ body closing parts rest, ts = body ++ (closing ++ parts) ∧ Derives .items body ∧
      Derives .closing closing ∧ Cases hasDefault parts rest ∧ Completes frames rest

/-- The same where an implicit body is open: the texts of a condition may be followed
    by its alternative. -/
def CompletesFrom (s : Shape) (ts : List Token) : Prop :=
  Completes s.frames ts ∨
    s.block = some .inThen ∧
      ∃ n rest, ts = List.replicate n .text ++ .otherwise :: rest ∧ Completes s.frames rest

/-- An item may stand before what completes the bodies that take items. -/
theorem Completes.item {frames : List Frame} {ts rest : List Token} (htakes : TakesItems frames)
    (hitem : Derives .item ts) (h : Completes frames rest) : Completes frames (ts ++ rest) := by
  match frames with
  | [] => exact .script_item hitem h
  | .function :: frames =>
    obtain ⟨body, after, rfl, hbody, hafter⟩ := h
    exact ⟨ts ++ body, after, by simp, .items_cons hitem hbody, hafter⟩
  | .switch hasDefault :: frames => exact absurd rfl (htakes hasDefault frames)
  | .case hasDefault :: frames =>
    obtain ⟨body, closing, parts, after, rfl, hbody, hrest⟩ := h
    exact ⟨ts ++ body, closing, parts, after, by simp, .items_cons hitem hbody, hrest⟩

theorem CompletesFrom.of_ne {s : Shape} {ts : List Token} (h : CompletesFrom s ts)
    (hblock : s.block ≠ some .inThen) : Completes s.frames ts := by
  rcases h with h | ⟨hthen, -⟩
  · exact h
  · exact absurd hthen hblock

theorem completes_item {frames : List Frame} {t : Token} {ts : List Token} {s : Shape}
    (htakes : TakesItems frames) (hitem : item frames t = some s) (h : CompletesFrom s ts) :
    Completes frames (t :: ts) := by
  have hsingle : Derives .item [t] → s = ⟨none, frames⟩ → Completes frames (t :: ts) := by
    rintro ht rfl
    exact Completes.item htakes ht (h.of_ne (by simp))
  unfold item at hitem
  split at hitem
  case h_1 => exact hsingle .blank (Option.some.inj hitem).symm
  case h_2 => exact hsingle .text (Option.some.inj hitem).symm
  case h_3 => exact hsingle .simple (Option.some.inj hitem).symm
  case h_4 => exact hsingle .endIf (Option.some.inj hitem).symm
  case h_5 =>
    cases hitem
    exact Completes.item htakes (.loop 0) (h.of_ne (by simp))
  case h_6 =>
    cases hitem
    rcases h with h | ⟨-, n, rest, rfl, h⟩
    · exact Completes.item htakes (.condition 0 .alternative_none .stop_none) h
    · have hcondition := Derives.condition n (.alternative 0) .stop_none
      simpa using Completes.item htakes hcondition h
  case h_7 =>
    cases hitem
    obtain ⟨n, parts, rest, rfl, ⟨defaults, cases, rfl, hcases, honce⟩, hrest⟩ :=
      h.of_ne (by simp)
    have hswitch := Derives.switch n hcases honce
    simpa using Completes.item htakes hswitch hrest
  case h_8 name =>
    split at hitem
    · next hempty =>
      cases hitem
      obtain rfl := List.isEmpty_iff.mp hempty
      obtain ⟨body, rest, rfl, hbody, hrest⟩ := h.of_ne (by simp)
      have hscript := Derives.script_function (.function name hbody) hrest
      simpa [Completes] using hscript
    · cases hitem
  case h_9 => cases hitem

/-- A marker of a switch stands before the cases that complete it. -/
theorem cases_betweenCases {frames : List Frame} {hasDefault : Bool} {t : Token} {ts : List Token}
    {s : Shape} (hblank : t ≠ .blank) (hbetween : betweenCases hasDefault frames t = some s)
    (h : CompletesFrom s ts) :
    ∃ rest, Cases hasDefault (t :: ts) rest ∧ Completes frames rest := by
  have honce : 0 + hasDefault.toNat ≤ 1 := by cases hasDefault <;> decide
  unfold betweenCases at hbetween
  split at hbetween
  case h_1 => exact absurd rfl hblank
  case h_2 =>
    cases hbetween
    exact ⟨ts, ⟨0, [], rfl, .cases_nil, honce⟩, h.of_ne (by simp)⟩
  case h_3 =>
    cases hbetween
    obtain ⟨body, closing, _, rest, rfl, hbody, hclosing, ⟨defaults, parts, rfl, hcases, honce⟩,
      hrest⟩ := h.of_ne (by simp)
    exact ⟨rest, ⟨defaults, _, by simp, .case hbody hclosing hcases, honce⟩, hrest⟩
  case h_4 =>
    split at hbetween
    · cases hbetween
    · next hfirst =>
      cases hbetween
      obtain ⟨body, closing, _, rest, rfl, hbody, hclosing, ⟨defaults, parts, rfl, hcases, honce⟩,
        hrest⟩ := h.of_ne (by simp)
      refine ⟨rest, ⟨defaults + 1, _, by simp, .default hbody hclosing hcases, ?_⟩, hrest⟩
      simpa [hfirst] using honce
  case h_5 => cases hbetween

/-- What a token outside of implicit bodies can do. -/
inductive Places : List Frame → Token → Shape → Prop where
  | item {frames : List Frame} {t : Token} {s : Shape} (takes : TakesItems frames)
      (item : item frames t = some s) : Places frames t s
  | endFunction {frames : List Frame} :
      Places (.function :: frames) .endFunction ⟨none, frames⟩
  | between {hasDefault : Bool} {frames : List Frame} {t : Token} {s : Shape}
      (between : betweenCases hasDefault frames t = some s) :
      Places (.switch hasDefault :: frames) t s
  | endCase {hasDefault : Bool} {frames : List Frame} :
      Places (.case hasDefault :: frames) .endCase ⟨none, .switch hasDefault :: frames⟩
  | marker {hasDefault : Bool} {frames : List Frame} {t : Token} {s : Shape} (visible : t ≠ .blank)
      (between : betweenCases hasDefault frames t = some s) :
      Places (.case hasDefault :: frames) t s

theorem place_places {frames : List Frame} {t : Token} {s : Shape} (h : place frames t = some s) :
    Places frames t s := by
  match frames with
  | [] => exact .item (by intro _ _ h; cases h) h
  | .function :: rest =>
    cases t with
    | endFunction => cases h; exact .endFunction
    | _ => exact .item (by intro _ _ h; cases h) h
  | .switch hasDefault :: rest => exact .between h
  | .case hasDefault :: rest =>
    cases t with
    | endCase => cases h; exact .endCase
    | case => exact .marker (by simp) h
    | default => exact .marker (by simp) h
    | endSwitch => exact .marker (by simp) h
    | _ => exact .item (takesItems_case hasDefault rest) h

/-- A function is opened only where nothing is open. -/
theorem frames_of_function {s s' : Shape} {name : String} (h : s.step (.function name) = some s') :
    s.frames = [] := by
  obtain ⟨block, frames⟩ := s
  rcases step_eq ⟨block, frames⟩ (.function name) with hplace | ⟨_, _, -, habsorbs, -⟩
  · cases place_places (hplace.symm.trans h) with
    | item _ hitem =>
      simp only [item] at hitem
      split at hitem
      · next hempty => exact List.isEmpty_iff.mp hempty
      · cases hitem
    | between hbetween => cases hbetween
    | marker _ hbetween => cases hbetween
  · cases habsorbs

theorem completes_place {frames : List Frame} {t : Token} {ts : List Token} {s : Shape}
    (hplace : Places frames t s) (h : CompletesFrom s ts) : Completes frames (t :: ts) := by
  cases hplace with
  | item htakes hitem => exact completes_item htakes hitem h
  | endFunction => exact ⟨[], ts, rfl, .items_nil, h.of_ne (by simp)⟩
  | between hbetween =>
    by_cases hblank : t = .blank
    · subst hblank
      cases hbetween
      obtain ⟨n, parts, rest, rfl, hcases⟩ := h.of_ne (by simp)
      exact ⟨n + 1, parts, rest, rfl, hcases⟩
    · obtain ⟨rest, hcases, hrest⟩ := cases_betweenCases hblank hbetween h
      exact ⟨0, _, rest, rfl, hcases, hrest⟩
  | endCase =>
    obtain ⟨n, parts, rest, rfl, hcases⟩ := h.of_ne (by simp)
    exact ⟨[], _, parts, rest, rfl, .items_nil, .closing n, hcases⟩
  | marker hblank hbetween =>
    obtain ⟨rest, hcases, hrest⟩ := cases_betweenCases hblank hbetween h
    exact ⟨[], [], _, rest, rfl, .items_nil, .closing_none, hcases, hrest⟩

/-- An implicit body is open only where items are taken. -/
def Sound (s : Shape) : Prop := s.block ≠ none → TakesItems s.frames

theorem betweenCases_block {hasDefault : Bool} {frames : List Frame} {t : Token} {s : Shape}
    (h : betweenCases hasDefault frames t = some s) : s.block = none := by
  unfold betweenCases at h
  split at h
  case h_4 =>
    split at h
    · cases h
    · cases h; rfl
  all_goals cases h <;> rfl

theorem sound_item {frames : List Frame} {t : Token} {s : Shape} (htakes : TakesItems frames)
    (h : item frames t = some s) : s.Sound := by
  unfold item at h
  split at h
  case h_5 => cases h; exact fun _ => htakes
  case h_6 => cases h; exact fun _ => htakes
  case h_8 =>
    split at h
    · cases h; exact fun hblock => absurd rfl hblock
    · cases h
  all_goals cases h <;> exact fun hblock => absurd rfl hblock

theorem sound_place {frames : List Frame} {t : Token} {s : Shape} (h : Places frames t s) :
    s.Sound := by
  cases h with
  | item htakes hitem => exact sound_item htakes hitem
  | endFunction => exact fun hblock => absurd rfl hblock
  | between hbetween => exact fun hblock => absurd (betweenCases_block hbetween) hblock
  | endCase => exact fun hblock => absurd rfl hblock
  | marker _ hbetween => exact fun hblock => absurd (betweenCases_block hbetween) hblock

theorem Sound.step {s s' : Shape} {t : Token} (hs : s.Sound) (hstep : s.step t = some s') :
    s'.Sound := by
  rcases step_eq s t with hplace | ⟨block, block', hblock, -, habsorbed⟩
  · exact sound_place (place_places (hplace.symm.trans hstep))
  · obtain rfl := Option.some.inj (habsorbed.symm.trans hstep)
    exact fun _ => hs (by simp [hblock])

/-- One token before what completes the bodies that are open after it. -/
theorem completesFrom_step {s s' : Shape} {t : Token} {ts : List Token} (hs : s.Sound)
    (hstep : s.step t = some s') (h : CompletesFrom s' ts) : CompletesFrom s (t :: ts) := by
  rcases step_eq s t with hplace | ⟨block, block', hblock, habsorbs, habsorbed⟩
  · exact .inl (completes_place (place_places (hplace.symm.trans hstep)) h)
  · obtain rfl := Option.some.inj (habsorbed.symm.trans hstep)
    have htakes : TakesItems s.frames := hs (by simp [hblock])
    cases habsorbs with
    | text =>
      rcases h with h | ⟨hthen, n, rest, rfl, h⟩
      · exact .inl (Completes.item htakes .text h)
      · exact .inr ⟨by rw [hblock]; exact hthen, n + 1, rest, rfl, h⟩
    | otherwise => exact .inr ⟨hblock, 0, ts, rfl, h.of_ne (by simp)⟩
    | stopThen => exact .inl (Completes.item htakes .endIf (h.of_ne (by simp)))
    | stopElse => exact .inl (Completes.item htakes .endIf (h.of_ne (by simp)))

theorem Accepts.completesFrom {s : Shape} {ts : List Token} (hs : s.Sound) (h : s.Accepts ts) :
    CompletesFrom s ts := by
  induction ts generalizing s with
  | nil =>
    obtain ⟨block, hrun⟩ := h
    cases hrun
    exact .inl .script_nil
  | cons t ts ih =>
    obtain ⟨s', hstep, haccepts⟩ := accepts_cons.mp h
    exact completesFrom_step hs hstep (ih (hs.step hstep) haccepts)

/-- The machine accepts exactly the scripts of the grammar. -/
theorem accepts_iff_derives (ts : List Token) : start.Accepts ts ↔ Derives .script ts := by
  constructor
  · intro h
    have hsound : start.Sound := fun hblock => absurd rfl hblock
    exact (h.completesFrom hsound).of_ne (by simp [start])
  · intro h
    exact takes_of_derives h none

end Shape

end ConsoleScript
