import Shoveler.Common.Lockstep
import Shoveler.Frontend.Progress
import Shoveler.Frontend.Screening

/-!
# Two texts parsed in step

The parser runs on two texts whose tokens correspond. What it comes to
depends on the tokens it tests and takes, so it suffices to say what those
of the two texts have in common: token by token they are alike, up to
places where neither text has anything the parser would take
(`Tandem.next`). Such a place may be a word that is an alias to the parser
and nothing else; therefore it is recorded what the parser has just read
(`Ground`). The rules by which parsers are put together then carry over
from one text to the other (`Tandem.FollowsTo`).
-/

namespace Shoveler

open Byte (apostrophe)

/-- A literal between apostrophes that is not closed. -/
structure Token.Open (token : Token) : Prop where
  kind : token.kind = .string
  quote : token.lexeme.head? = some apostrophe
  terminated : token.terminated = false

namespace Sql

open Parse Ast

/-- **An open literal is no literal.** -/
theorem cloneStringLiteral_of_open {token : Token} (h : token.Open) :
    cloneStringLiteral token = failToken token .unexpectedToken "terminated string literal" := by
  rw [cloneStringLiteral, if_pos h.quote, if_neg (by rw [h.terminated]; exact Bool.false_ne_true)]

/-! ## Places in a text -/

/-- The words of a query that an operand, a list or another word follows. -/
def clauseWords : List String :=
  ["SELECT", "WHERE", "GROUP", "BY", "HAVING", "ORDER", "LIMIT", "ASC", "DESC", "INNER", "CROSS",
    "LEFT", "OUTER", "ON", "WITH", "AND", "NULL", "TRUE", "FALSE"]

/-- The words that a table follows. -/
def sourceWords : List String := ["FROM", "JOIN"]

/-- What a comparison starts with. -/
def operators : List String := ["=", "<", ">", "!"]

/-- A word that may start a statement. -/
def StartWord (word : String) : Prop :=
  IsWord (ascii word) ∧ ∀ source ∈ sourceWords, foldCase (ascii word) ≠ foldCase (ascii source)

instance (word : String) : Decidable (StartWord word) := inferInstanceAs (Decidable (_ ∧ _))

/-- **What was read last**: anything, anything but a table, what a name may
follow, or nothing but the words a statement starts with. -/
inductive Ground where
  | any
  | source
  | fresh
  | start

/-- **How far two texts have been read**, as stages that only grow: whether
what was read is still the same, and on what ground the parser stands. -/
structure Stages where
  words : String → Prop
  isWord : ∀ {word}, words word → IsWord (ascii word)
  grammar : ∀ word ∈ "AS" :: sourceWords ++ clauseWords, words word
  same : ℕ → Prop
  same_of_le : ∀ {w w'}, w ≤ w' → same w' → same w
  On : Ground → ℕ → Prop
  on_any : ∀ w, On .any w
  on_source : ∀ {w}, On .fresh w → On .source w
  on_fresh : ∀ {w}, On .start w → On .fresh w

namespace Stages

variable (x : Stages)

/-- **Two tokens that are read at a stage**, with the stage they lead to. -/
structure Reading (w w' : ℕ) (token token' : Token) : Prop where
  le : w ≤ w'
  alike : token.Same token' ∨ ¬x.same w' ∧ token.Cut token'
  word : ∀ {word}, x.words word → token.eqlIgnoreCase (ascii word) = true → x.On .source w'
  clause : ∀ {word}, x.words word → word ∉ sourceWords → token.eqlIgnoreCase (ascii word) = true →
    x.On .fresh w'
  name : x.On .fresh w → x.On .source w'
  other : isIdentifier token = false → x.On .fresh w'
  operator : ∀ symbol ∈ operators, token.lexeme = ascii symbol → x.On .fresh w'
  start : ∀ {word}, x.On .start w → StartWord word → token.eqlIgnoreCase (ascii word) = true →
    x.On .start w'

/-- **A token that nobody takes**, except perhaps as an alias. -/
structure Inert (w : ℕ) (token : Token) : Prop where
  word : ∀ {word}, x.words word → word ≠ "AS" → token.eqlIgnoreCase (ascii word) = false
  symbol : ∀ {symbol}, ascii symbol ≠ ascii ";" → isSymbol symbol token = false
  operator : ∀ symbol ∈ operators, token.lexeme ≠ ascii symbol
  number : token.kind ≠ .number
  string : token.kind = .string → token.Open
  name : x.On .source w → isIdentifier token = false
  start : ∀ {word}, x.On .start w → StartWord word → token.eqlIgnoreCase (ascii word) = false

/-- What is no name is told by its kind. -/
theorem Inert.of_kind {x : Stages} {w : ℕ} {token : Token} (hname : token.kind ≠ .identifier)
    (hnumber : token.kind ≠ .number) (hstring : token.kind = .string → token.Open)
    (hsymbol : ∀ {symbol}, ascii symbol ≠ ascii ";" → isSymbol symbol token = false)
    (hoperator : ∀ symbol ∈ operators, token.lexeme ≠ ascii symbol) : x.Inert w token := by
  have hnot : isIdentifier token = false := decide_eq_false hname
  have hword : ∀ word : Bytes, token.eqlIgnoreCase word = false := by
    intro word
    rw [isIdentifier] at hnot
    rw [Token.eqlIgnoreCase, hnot]
    rfl
  exact ⟨fun _ _ => hword _, hsymbol, hoperator, hnumber, hstring, fun _ => hnot,
    fun _ _ => hword _⟩

/-- Whether the projections of a query may end here. -/
def stops : Option Token → Bool
  | none => true
  | some token => decide (token.lexeme = ascii ";")

/-- **Nobody takes what comes next in either text.** -/
structure Dull (w : ℕ) (l l' : List Token) : Prop where
  left : ∀ token ∈ l.head?, x.Inert w token
  right : ∀ token ∈ l'.head?, x.Inert w token
  stops : stops l'.head? = stops l.head?

/-- **What comes next in two texts.** -/
inductive Meets (At : ℕ → List Token → List Token → Prop) (w : ℕ) :
    List Token → List Token → Prop
  | read {token token' : Token} {rest rest' : List Token} {w' : ℕ} :
      x.Reading w w' token token' → At w' rest rest' → Meets At w (token :: rest) (token' :: rest')
  | dull {l l' : List Token} : x.Dull w l l' → Meets At w l l'

/-- **A word that is an alias**, with `AS` before it in one of the texts. -/
structure Aliased (At : ℕ → List Token → List Token → Prop) (w : ℕ) (l l' : List Token) where
  w' : ℕ
  le : w ≤ w'
  name : Token
  name' : Token
  same : name.Same name'
  plain : ∀ {word}, x.words word → name.eqlIgnoreCase (ascii word) = false
  identifier : isIdentifier name = true
  word : Token
  isAs : word.eqlIgnoreCase (ascii "AS") = true
  rest : List Token
  rest' : List Token
  at_rest : At w' rest rest'
  texts : l = name :: rest ∧ l' = word :: name' :: rest' ∨
    l = word :: name :: rest ∧ l' = name' :: rest'

/-- Texts in which no alias is at issue: the parser may stand anywhere. -/
def plain (same : ℕ → Prop) (same_of_le : ∀ {w w'}, w ≤ w' → same w' → same w) : Stages where
  words word := IsWord (ascii word)
  isWord h := h
  grammar := by decide
  same := same
  same_of_le := same_of_le
  On _ _ := True
  on_any _ := trivial
  on_source _ := trivial
  on_fresh _ := trivial

/-- Then all that matters of two tokens is whether they are alike. -/
theorem Reading.of_on {x : Stages} (hx : ∀ g w, x.On g w) {w w' : ℕ} {token token' : Token}
    (hle : w ≤ w') (halike : token.Same token' ∨ ¬x.same w' ∧ token.Cut token') :
    x.Reading w w' token token' where
  le := hle
  alike := halike
  word _ _ := hx _ w'
  clause _ _ _ := hx _ w'
  name _ := hx _ w'
  other _ := hx _ w'
  operator _ _ _ := hx _ w'
  start _ _ _ := hx _ w'

end Stages

/-- **Two texts read in step.** -/
structure Tandem extends Stages where
  input : Input
  copy : Input
  sameFloats : copy.parseFloat = input.parseFloat
  At : ℕ → List Token → List Token → Prop
  next : ∀ {w l l'}, At w l l' → toStages.Meets At w l l'
  /-- Once the texts have differed nothing is left to take. -/
  ended : ∀ {w l l'}, At w l l' → ¬same w → toStages.Dull w l l'
  aliased : ∀ {w l l'}, At w l l' → ¬On .source w → Nonempty (toStages.Aliased At w l l')

namespace Tandem

variable {x : Tandem} {ι κ α β γ δ : Type} {w w' : ℕ} {f : α → γ} {e : β → δ} {g s h : Ground}

/-- **What is known of two results**: as long as the texts are the same
they are, and `f` makes the same of both. -/
def Agree (x : Tandem) (f : α → γ) (w : ℕ) (a a' : α) : Prop :=
  (x.same w → a = a') ∧ f a = f a'

/-- Nothing is known of them. -/
def blind {α : Type} (_ : α) : Unit := ()

theorem Agree.refl (f : α → γ) (w : ℕ) (a : α) : x.Agree f w a a := ⟨fun _ => rfl, rfl⟩

/-- The parser in lockstep on the two texts. -/
abbrev Sim (x : Tandem) (V : ℕ → α → α → Prop) (w : ℕ) (p p' : Parser α) : Prop :=
  Lockstep x.At x.input x.copy V w p p'

/-- **Parsers that go by the tokens alone**: on a ground `g` and given
values that are the same as long as the texts are, they take the same
tokens of both, their results agree, and they leave the ground that goes
with the result. -/
def FollowsTo (x : Tandem) (g : Ground) (post : α → Ground) (f : α → γ) (F : ι → Parser α) : Prop :=
  ∀ w i j, x.On g w → (x.same w → i = j) →
    x.Sim (fun w' a a' => x.On (post a) w' ∧ x.Agree f w' a a') w (F i) (F j)

/-- The ground left is always the same. -/
abbrev Follows (x : Tandem) (g h : Ground) (f : α → γ) (F : ι → Parser α) : Prop :=
  x.FollowsTo g (fun _ => h) f F

/-- **Tests that both texts answer alike.** -/
def Tests (x : Tandem) (g s : Ground) (t : Parser Bool) : Prop :=
  ∀ w, x.On g w → x.Sim (fun w' b b' => b = b' ∧ (b = true → x.On s w') ∧ (b = false → w' = w)) w t t

/-- The ground a round leaves. -/
def ground (g h : Ground) : Round α β → Ground
  | .again _ => g
  | .done _ => h

namespace FollowsTo

variable {post : α → Ground} {rest : β → Ground} {F P Q : ι → Parser α} {G : ι → α → Parser β}

theorem comp (hF : x.FollowsTo g post f F) (k : κ → ι) : x.FollowsTo g post f fun i => F (k i) :=
  fun w i j hg hij => hF w (k i) (k j) hg fun hs => congrArg k (hij hs)

/-- Less may be asked of the results and of the ground. -/
theorem forget (hF : x.FollowsTo g post f F) : x.Follows g .any blind F :=
  fun w i j hg hij => (hF w i j hg hij).imp fun w' _ _ ha => ⟨x.on_any w', ha.2.1, rfl⟩

theorem weaken (hF : x.FollowsTo g post f F) (hs : ∀ {w}, x.On s w → x.On g w) :
    x.FollowsTo s post f F := fun w i j hw => hF w i j (hs hw)

theorem pure {a : ι → α} (hpost : ∀ i w, x.On g w → x.On (post (a i)) w)
    (hf : ∀ i j, f (a i) = f (a j)) : x.FollowsTo g post f fun i => Pure.pure (a i) :=
  fun w i j hg hij => Lockstep.pure ⟨hpost i w hg, fun hs => congrArg a (hij hs), hf i j⟩

theorem skip {a : ι → α} : x.Follows g .any blind fun i => Pure.pure (a i) :=
  pure (fun _ w _ => x.on_any w) fun _ _ => rfl

theorem stay {a : ι → α} : x.Follows g g blind fun i => Pure.pure (a i) :=
  pure (fun _ _ hg => hg) fun _ _ => rfl

theorem again {a : ι → α} :
    x.FollowsTo g (ground g h) Round.isDone fun i => Pure.pure (.again (a i) : Round α β) :=
  pure (fun _ _ hg => hg) fun _ _ => rfl

theorem done {b : ι → β} :
    x.FollowsTo h (ground g h) Round.isDone fun i => Pure.pure (.done (b i) : Round α β) :=
  pure (fun _ _ hg => hg) fun _ _ => rfl

theorem doneAny {b : ι → β} :
    x.FollowsTo s (ground g .any) Round.isDone fun i => Pure.pure (.done (b i) : Round α β) :=
  pure (fun _ w _ => x.on_any w) fun _ _ => rfl

/-- **One parser after the other**: what follows may go by what the results
agree in. -/
theorem bind_of (hF : x.Follows g h f F)
    (hG : ∀ c, x.FollowsTo h rest e fun p : { p : ι × α // f p.2 = c } => G p.1.1 p.1.2) :
    x.FollowsTo g rest e fun i => F i >>= G i := by
  intro w i j hg hij
  refine .bind (hF w i j hg hij) fun w' hle a a' ha => ?_
  refine hG (f a) w' ⟨(i, a), rfl⟩ ⟨(j, a'), ha.2.2.symm⟩ ha.1 fun hs => ?_
  obtain rfl := hij (x.same_of_le hle hs)
  obtain rfl := ha.2.1 hs
  rfl

theorem bind (hF : x.Follows g h f F) (hG : x.FollowsTo h rest e fun p : ι × α => G p.1 p.2) :
    x.FollowsTo g rest e fun i => F i >>= G i :=
  hF.bind_of fun _ => hG.comp Subtype.val

theorem bind_eq (hF : x.Follows g h id F) (hG : ∀ a, x.FollowsTo h rest e fun i => G i a) :
    x.FollowsTo g rest e fun i => F i >>= G i := by
  refine hF.bind_of fun a => ?_
  have hsame : (fun p : { p : ι × α // id p.2 = a } => G p.1.1 p.1.2) = fun p => G p.1.1 a := by
    funext ⟨⟨i, b⟩, hb⟩
    obtain rfl : b = a := hb
    rfl
  rw [hsame]
  exact (hG a).comp fun p : { p : ι × α // id p.2 = a } => p.1.1

theorem ite {c : Prop} [Decidable c] (hP : c → x.FollowsTo g post f P)
    (hQ : ¬c → x.FollowsTo g post f Q) : x.FollowsTo g post f fun i => if c then P i else Q i := by
  intro w i j hg hij
  exact .ite (fun hc => hP hc w i j hg hij) fun hc => hQ hc w i j hg hij

/-- **A branch on a test.** -/
theorem test {t : Parser Bool} (ht : x.Tests g s t) (hP : x.FollowsTo s post f P)
    (hQ : x.FollowsTo g post f Q) :
    x.FollowsTo g post f fun i => t >>= fun b => if b = true then P i else Q i := by
  intro w i j hg hij
  refine .bind (ht w hg) fun w' hle b b' hb => ?_
  obtain ⟨rfl, htrue, hfalse⟩ := hb
  cases b with
  | true => exact hP w' i j (htrue rfl) fun hs => hij (x.same_of_le hle hs)
  | false =>
    obtain rfl := hfalse rfl
    exact hQ w' i j hg hij

/-- **Loops that come to an end in the same round.** -/
theorem loop {stuck : Diagnostic} {body : α → Parser (Round α β)} (hreads : Parse.Reads body)
    (hbody : x.FollowsTo g (ground g h) Round.isDone body) :
    x.Follows g h blind (Parse.loop stuck body) := by
  intro w a a' hg ha
  refine Lockstep.loop (V := fun w a a' => x.On g w ∧ (x.same w → a = a')) ?_ hreads ⟨hg, ha⟩
  intro w a a' ⟨hg, ha⟩
  refine (hbody w a a' hg ha).imp fun w' round round' hround => ?_
  obtain ⟨hon, hsame, hkind⟩ := hround
  cases round with
  | again a =>
    cases round' with
    | again a' => exact .again ⟨hon, fun hs => Round.again.inj (hsame hs)⟩
    | done b' => cases hkind
  | done b =>
    cases round' with
    | again a' => cases hkind
    | done b' => exact .done ⟨hon, fun hs => Round.done.inj (hsame hs), rfl⟩

theorem fix {stuck : Diagnostic} {F : Parser α → Parser α} (hguarded : Guarded F)
    (hF : ∀ p, (∀ κ, x.Follows g h f fun _ : κ => p) → x.Follows g h f fun _ : Unit => F p) :
    x.Follows g h f fun _ : ι => Parse.fix stuck F := fun _ _ _ hg _ =>
  Lockstep.fix hguarded (P := x.On g) (fun p hp w hw =>
    hF p (fun _ w _ _ hw _ => hp w hw) w () () hw fun _ => rfl) hg

end FollowsTo

open FollowsTo

theorem Tests.follows {t : Parser Bool} (ht : x.Tests g s t) :
    x.Follows g .any id fun _ : ι => t :=
  fun w _ _ hg _ => (ht w hg).imp fun w' _ _ hb => ⟨x.on_any w', fun _ => hb.1, hb.1⟩

/-! ## Tests -/

/-- A parser that never succeeds. -/
def Rejects (p : Parser α) : Prop := ∀ input l a rest, p.run input l ≠ .ok (a, rest)

theorem rejects_failToken (token : Token) (code : DiagnosticCode) (expected : String) :
    Rejects (failToken token code expected : Parser α) := fun _ _ _ _ h => by cases h

/-- **Reading a token.** -/
theorem sim_expectToken {V : ℕ → α → α → Prop} {expected : String} {p p' : Token → Parser α}
    (hdull : ∀ token, x.Inert w token → Rejects (p token))
    (hread : ∀ w' token token', x.Reading w w' token token' → x.Sim V w' (p token) (p' token')) :
    x.Sim V w (expectToken expected >>= p) (expectToken expected >>= p') := by
  intro l l' hat a rest hrun
  obtain ⟨t, mid, ht, hrun⟩ := bind_eq_ok.1 hrun
  cases x.next hat with
  | dull hd =>
    cases l with
    | nil => cases ht
    | cons token l =>
      obtain ⟨rfl, rfl⟩ := Prod.mk.inj (Except.ok.inj ht)
      exact absurd hrun (hdull token (hd.left token rfl) _ _ _ _)
  | @read token token' l l' w' hr hat' =>
    obtain ⟨rfl, rfl⟩ := Prod.mk.inj (Except.ok.inj ht)
    obtain ⟨w'', a', rest', hrun', hle, hrest, ha⟩ := hread w' token token' hr l l' hat' a rest hrun
    exact ⟨w'', a', rest', bind_eq_ok.2 ⟨token', l', rfl, hrun'⟩, le_trans hr.le hle, hrest, ha⟩

/-- **A test of a token** that both texts answer alike, and negatively at
what nobody takes. -/
structure Legible (x : Tandem) (g s : Ground) (wanted : Token → Bool) : Prop where
  same : ∀ {token token'}, token.Same token' → wanted token' = wanted token
  cut : ∀ {token token'}, token.Cut token' → wanted token = false ∧ wanted token' = false
  inert : ∀ {w token}, x.On g w → x.Inert w token → wanted token = false
  leaves : ∀ {w w' token token'}, x.On g w → x.Reading w w' token token' → wanted token = true →
    x.On s w'

theorem Legible.weaken {wanted : Token → Bool} (h : x.Legible g s wanted) {g' : Ground}
    (hg : ∀ {w}, x.On g' w → x.On g w) : x.Legible g' s wanted where
  same := h.same
  cut := h.cut
  inert hw := h.inert (hg hw)
  leaves hw := h.leaves (hg hw)

theorem Legible.reading {wanted : Token → Bool} (h : x.Legible g s wanted) {token token' : Token}
    (hr : x.Reading w w' token token') : wanted token' = wanted token := by
  rcases hr.alike with hsame | ⟨-, hcut⟩
  · exact h.same hsame
  · rw [(h.cut hcut).1, (h.cut hcut).2]

theorem accept_of_not {wanted : Token → Bool} {l : List Token} (input : Input)
    (h : ∀ token ∈ l.head?, wanted token = false) :
    (accept wanted : Parser Bool).run input l = .ok (false, l) := by
  cases l with
  | nil => rfl
  | cons token l => rw [accept_cons, h token rfl, if_neg Bool.false_ne_true]

/-- **Stepping over a token.** -/
theorem tests_accept {wanted : Token → Bool} (h : x.Legible g s wanted) :
    x.Tests g s (accept wanted) := by
  intro w hg l l' hat b rest hrun
  cases x.next hat with
  | dull hd =>
    rw [accept_of_not _ fun token ht => h.inert hg (hd.left token ht)] at hrun
    obtain ⟨rfl, rfl⟩ := Prod.mk.inj (Except.ok.inj hrun)
    exact ⟨w, false, l', accept_of_not _ fun token ht => h.inert hg (hd.right token ht), le_refl w,
      hat, rfl, (fun hb => by cases hb), fun _ => rfl⟩
  | @read token token' l l' w' hr hat' =>
    rw [accept_cons] at hrun
    by_cases hw : wanted token = true
    · rw [if_pos hw] at hrun
      obtain ⟨rfl, rfl⟩ := Prod.mk.inj (Except.ok.inj hrun)
      refine ⟨w', true, l', ?_, hr.le, hat', rfl, fun _ => h.leaves hg hr hw, fun hb => by cases hb⟩
      rw [accept_cons, h.reading hr, if_pos hw]
    · rw [if_neg hw] at hrun
      obtain ⟨rfl, rfl⟩ := Prod.mk.inj (Except.ok.inj hrun)
      refine ⟨w, false, token' :: l', ?_, le_refl w, hat, rfl, fun hb => (by cases hb), fun _ => rfl⟩
      rw [accept_cons, h.reading hr, if_neg hw]

/-- **Looking at a token** without stepping over it. -/
theorem sim_inspect {p : Parser α} {F : Option Token → α}
    (hp : ∀ input l, p.run input l = .ok (F l.head?, l))
    (hread : ∀ w' token token', x.Reading w w' token token' → F (some token') = F (some token))
    (hdull : ∀ l l', x.Dull w l l' → F l'.head? = F l.head?) :
    x.Sim (fun w' a a' => w' = w ∧ a = a') w p p := by
  intro l l' hat a rest hrun
  rw [hp] at hrun
  obtain ⟨rfl, rfl⟩ := Prod.mk.inj (Except.ok.inj hrun)
  refine ⟨w, F l'.head?, l', hp x.copy l', le_refl w, hat, rfl, ?_⟩
  cases x.next hat with
  | dull hd => exact (hdull l l' hd).symm
  | read hr _ => exact (hread _ _ _ hr).symm

theorem kind_of_isSymbol {symbol : String} {token : Token} (h : isSymbol symbol token = true) :
    token.kind = .symbol ∧ token.lexeme = ascii symbol := by
  rw [isSymbol, Bool.and_eq_true, decide_eq_true_iff, decide_eq_true_iff] at h
  exact h

theorem isIdentifier_of_isSymbol {symbol : String} {token : Token}
    (h : isSymbol symbol token = true) : isIdentifier token = false := by
  rw [isIdentifier, (kind_of_isSymbol h).1]
  rfl

theorem isKeyword_of_isSymbol {symbol : String} {token : Token} (h : isSymbol symbol token = true)
    (words : List String) : isKeyword words token = false := by
  refine List.any_eq_false.2 fun word _ => ?_
  rw [Token.eqlIgnoreCase, (kind_of_isSymbol h).1]
  exact Bool.false_ne_true

theorem isKeyword_of_same {token token' : Token} (h : token.Same token') (words : List String) :
    isKeyword words token' = isKeyword words token := by
  unfold isKeyword
  simp only [h.eqlIgnoreCase]

theorem quotedKind_ne (c : UInt8) : quotedKind c ≠ .symbol ∧ quotedKind c ≠ .number := by
  unfold quotedKind
  split <;> decide

section Words

variable {word : String}

theorem eqlIgnoreCase_of_cut {token token' : Token} (h : IsWord (ascii word))
    (hcut : token.Cut token') :
    token.eqlIgnoreCase (ascii word) = false ∧ token'.eqlIgnoreCase (ascii word) = false := by
  obtain ⟨c, hquote, -, -, hhead, hhead'⟩ := hcut.quote
  exact ⟨Token.eqlIgnoreCase_of_quote hquote hhead h,
    Token.eqlIgnoreCase_of_quote hquote hhead' h⟩

/-- A word of the grammar, with the ground it leaves. -/
theorem legible_word (hword : x.words word) (has : word ≠ "AS") (hs : ∀ {w w' token token'},
    x.Reading w w' token token' → token.eqlIgnoreCase (ascii word) = true → x.On s w') :
    x.Legible g s fun token => token.eqlIgnoreCase (ascii word) where
  same ht := ht.eqlIgnoreCase (ascii word)
  cut := eqlIgnoreCase_of_cut (x.isWord hword)
  inert _ ht := ht.word hword has
  leaves _ := hs

/-- A word that no table follows. -/
theorem legible_plain (hword : x.words word) (h : word ∉ "AS" :: sourceWords) :
    x.Legible g .fresh fun token => token.eqlIgnoreCase (ascii word) :=
  legible_word hword (fun has => h (has ▸ List.mem_cons_self)) fun hr =>
    hr.clause hword fun hmem => h (List.mem_cons_of_mem _ hmem)

theorem clause_plain (h : word ∈ clauseWords) : word ∉ "AS" :: sourceWords := by
  revert word
  decide

theorem source_ne (h : word ∈ sourceWords) : word ≠ "AS" := by
  revert word
  decide

theorem legible_clause (h : word ∈ clauseWords) :
    x.Legible g .fresh fun token => token.eqlIgnoreCase (ascii word) :=
  legible_plain (x.grammar word (List.mem_append_right _ h)) (clause_plain h)

theorem words_source (h : word ∈ sourceWords) : x.words word :=
  x.grammar word (List.mem_append_left _ (List.mem_cons_of_mem _ h))

theorem legible_source (h : word ∈ sourceWords) :
    x.Legible g .source fun token => token.eqlIgnoreCase (ascii word) :=
  legible_word (words_source h) (source_ne h) fun hr => hr.word (words_source h)

/-- The words that statements start with. -/
theorem legible_start (h : StartWord word) :
    x.Legible .start .start fun token => token.eqlIgnoreCase (ascii word) where
  same ht := ht.eqlIgnoreCase (ascii word)
  cut := eqlIgnoreCase_of_cut h.1
  inert hg ht := ht.start hg h
  leaves hg hr := hr.start hg h

/-- Where no alias is next, `AS` can be told apart as well. -/
theorem legible_as : x.Legible .source .fresh fun token => token.eqlIgnoreCase (ascii "AS") where
  same ht := ht.eqlIgnoreCase _
  cut := eqlIgnoreCase_of_cut (by decide)
  inert hg ht := by
    have hname := ht.name hg
    rw [isIdentifier] at hname
    rw [Token.eqlIgnoreCase, hname]
    rfl
  leaves _ hr := hr.clause (x.grammar "AS" List.mem_cons_self) (by decide)

theorem legible_anyKeyword {words : List String}
    (hknown : ∀ word ∈ words, x.words word ∧ word ≠ "AS") :
    x.Legible g .source (isKeyword words) := by
  refine ⟨fun ht => isKeyword_of_same ht words, fun hcut => ?_, fun _ ht => ?_, fun _ hr hw => ?_⟩
  · exact ⟨List.any_eq_false.2 fun word hword => ne_true_of_eq_false
        (eqlIgnoreCase_of_cut (x.isWord (hknown word hword).1) hcut).1,
      List.any_eq_false.2 fun word hword => ne_true_of_eq_false
        (eqlIgnoreCase_of_cut (x.isWord (hknown word hword).1) hcut).2⟩
  · exact List.any_eq_false.2 fun word hword =>
      ne_true_of_eq_false (ht.word (hknown word hword).1 (hknown word hword).2)
  · obtain ⟨word, hword, hw⟩ := List.any_eq_true.1 hw
    exact hr.word (hknown word hword).1 hw

theorem legible_isKeyword {words : List String}
    (hwords : ∀ word ∈ words, word ∈ sourceWords ++ clauseWords) :
    x.Legible g .source (isKeyword words) := by
  refine legible_anyKeyword fun word hword =>
    ⟨x.grammar word (List.mem_cons_of_mem _ (hwords word hword)), ?_⟩
  rintro rfl
  exact absurd (hwords "AS" hword) (by decide)

end Words

theorem legible_isSymbol {symbol : String} (hsymbol : ascii symbol ≠ ascii ";") :
    x.Legible g .fresh (isSymbol symbol) where
  same ht := by
    unfold isSymbol
    rw [ht.kind, ht.lexeme]
  cut ht := by
    obtain ⟨c, -, hkind, hkind', -, -⟩ := ht.quote
    unfold isSymbol
    rw [hkind, hkind', decide_eq_false (quotedKind_ne c).1]
    exact ⟨rfl, rfl⟩
  inert _ ht := ht.symbol hsymbol
  leaves _ hr hw := hr.other (isIdentifier_of_isSymbol hw)

theorem legible_or {wanted wanted' : Token → Bool} (h : x.Legible g s wanted)
    (h' : x.Legible g s wanted') : x.Legible g s fun token => wanted token || wanted' token where
  same ht := by rw [h.same ht, h'.same ht]
  cut ht := by
    rw [(h.cut ht).1, (h.cut ht).2, (h'.cut ht).1, (h'.cut ht).2]
    exact ⟨rfl, rfl⟩
  inert hg ht := by
    rw [h.inert hg ht, h'.inert hg ht]
    rfl
  leaves hg hr hw := (Bool.or_eq_true_iff.1 hw).elim (h.leaves hg hr) (h'.leaves hg hr)

end Tandem

end Sql

end Shoveler
