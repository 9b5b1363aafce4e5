import Mathlib.Data.Nat.Bitwise
import Shoveler.Common.Outcome

/-!
# Readers, writers and round trips

A reader takes symbols off an input at a cursor, a writer appends symbols
to an output, and both may fail. `Reads` says what a reader makes of a
piece of input whatever follows it, and `RoundTrips` that a reader gives
back what a writer has written. Round trips compose like the writers and
readers do: one after the other (`RoundTrips.bind`), over a list
(`RoundTrips.loop`), and with a computation at the end that reads nothing
(`RoundTrips.finish`). What a reader accepts (`Ensures`) and how it fails
(`Reader.FailsWith`) is carried along the same steps.
-/

namespace Shoveler

open Outcome List

/-- **A place in an input**, never past its end. -/
structure Cursor (β : Type) where
  bytes : List β
  index : ℕ
  inside : index ≤ bytes.length

namespace Cursor

variable {β : Type}

/-- At the start of an input. -/
def init (bytes : List β) : Cursor β := ⟨bytes, 0, Nat.zero_le _⟩

/-- Nothing is left. -/
def finished (c : Cursor β) : Bool := decide (c.index = c.bytes.length)

/-- What is left. -/
def rest (c : Cursor β) : List β := c.bytes.drop c.index

@[simp] theorem rest_init (bytes : List β) : (init bytes).rest = bytes := rfl

theorem length_rest (c : Cursor β) : c.rest.length = c.bytes.length - c.index := length_drop

theorem finished_iff (c : Cursor β) : c.finished = true ↔ c.rest = [] := by
  have hinside := c.inside
  rw [finished, decide_eq_true_iff, ← length_eq_zero_iff, length_rest]
  omega

end Cursor

/-- A computation that reads at a cursor and moves it on. -/
abbrev Reader (ε β α : Type) := StateT (Cursor β) (Except ε) α

namespace Reader

variable {ε α β σ : Type}

/-- The next symbols, as many as are asked for, or the given error where
there are fewer left. -/
def take (e : ε) (n : ℕ) : Reader ε β (List β) := fun c =>
  if h : n > c.bytes.length - c.index then .error e
  else .ok (c.rest.take n, ⟨c.bytes, c.index + n, by have := c.inside; omega⟩)

/-- A reader run so many times, each from the state the one before has
left. -/
def loop : ℕ → (σ → Reader ε β σ) → σ → Reader ε β σ
  | 0, _, s => pure s
  | n + 1, body, s => do loop n body (← body s)

/-- A reader run so many times, with the list of what it has read. -/
def times (n : ℕ) (r : Reader ε β α) : Reader ε β (List α) :=
  loop n (fun read => do return read ++ [← r]) []

end Reader

/-! ## What a reader makes of an input -/

/-- **The reader takes this input for that value**, whatever follows. -/
def Reads {ε α β : Type} (r : Reader ε β α) (input : List β) (a : α) : Prop :=
  ∀ c tail, c.rest = input ++ tail → ∃ c', r.run c = .ok (a, c') ∧ c'.rest = tail

namespace Reads

variable {ε α α' β : Type} {r : Reader ε β α} {f : α → Reader ε β α'} {input input' : List β}
  {a : α} {b : α'}

theorem pure (a : α) : Reads (Pure.pure a : Reader ε β α) [] a := fun c _ hc => ⟨c, rfl, hc⟩

/-- A computation that reads nothing. -/
theorem lift {x : Except ε α} (h : x = .ok a) : Reads (liftM x : Reader ε β α) [] a := by
  intro c tail hc
  subst h
  exact ⟨c, rfl, hc⟩

/-- **One reader after another.** -/
theorem bind (hr : Reads r input a) (hf : Reads (f a) input' b) :
    Reads (r >>= f) (input ++ input') b := by
  intro c tail hc
  rw [append_assoc] at hc
  obtain ⟨c₁, hrun, hrest⟩ := hr c _ hc
  obtain ⟨c₂, hrun', hrest'⟩ := hf c₁ tail hrest
  refine ⟨c₂, ?_, hrest'⟩
  rw [StateT.run_bind, hrun]
  exact hrun'

/-- A computation at the end that reads nothing. -/
theorem finish (hr : Reads r input a) (hf : Reads (f a) [] b) : Reads (r >>= f) input b := by
  have hboth := hr.bind hf
  rwa [append_nil] at hboth

theorem take {e : ε} {n : ℕ} (h : input.length = n) :
    Reads (Reader.take e n : Reader ε β (List β)) input input := by
  intro c tail hc
  have hlen : c.bytes.length - c.index = n + tail.length := by
    rw [← c.length_rest, hc, length_append, h]
  have hinside := c.inside
  have hfits : ¬n > c.bytes.length - c.index := by omega
  have htaken : c.rest.take n = input := by
    rw [hc, ← h, take_left]
  have hleft : c.rest.drop n = tail := by
    rw [hc, ← h, drop_left]
  refine ⟨⟨c.bytes, c.index + n, by omega⟩, ?_, ?_⟩
  · rw [StateT.run, Reader.take, dif_neg hfits, htaken]
  · unfold Cursor.rest at hleft ⊢
    rwa [drop_drop] at hleft

/-- What the reader makes of the whole of an input. -/
theorem run_init (h : Reads r input a) :
    ∃ c, r.run (Cursor.init input) = .ok (a, c) ∧ c.finished = true := by
  obtain ⟨c, hrun, hrest⟩ := h (Cursor.init input) [] (by simp)
  exact ⟨c, hrun, c.finished_iff.2 hrest⟩

end Reads

/-! ## What a reader accepts -/

/-- **Whatever the reader accepts satisfies this**, on every input. -/
def Ensures {ε α β : Type} (r : Reader ε β α) (P : α → Prop) : Prop :=
  ∀ c a c', r.run c = .ok (a, c') → P a

namespace Ensures

variable {ε α α' β σ : Type} {r : Reader ε β α} {f : α → Reader ε β α'} {P : α → Prop}
  {Q : α' → Prop} {a : α}

theorem any : Ensures r fun _ => True := fun _ _ _ _ => trivial

theorem pure (h : P a) : Ensures (Pure.pure a : Reader ε β α) P := by
  intro c a' c' hrun
  obtain ⟨rfl, -⟩ := Prod.mk.inj (Except.ok.inj hrun)
  exact h

/-- A computation that reads nothing. -/
theorem lift {x : Except ε α} (h : ∀ a, x = .ok a → P a) : Ensures (liftM x : Reader ε β α) P := by
  intro c a c' hrun
  cases x with
  | error e => cases hrun
  | ok a' =>
    obtain ⟨rfl, -⟩ := Prod.mk.inj (Except.ok.inj hrun)
    exact h a' rfl

/-- **One reader after another.** -/
theorem bind (hr : Ensures r P) (hf : ∀ a, P a → Ensures (f a) Q) : Ensures (r >>= f) Q := by
  intro c b c' hrun
  rw [StateT.run_bind] at hrun
  obtain ⟨⟨a, c₁⟩, hfirst, hrun⟩ := bind_eq_ok.1 hrun
  exact hf a (hr c a c₁ hfirst) c₁ b c' hrun

/-- A reader whose value does not matter. -/
theorem skip (hf : ∀ a, Ensures (f a) Q) : Ensures (r >>= f) Q := any.bind fun a _ => hf a

/-- **The invariant rule for loops of readers.** -/
theorem loop {body : σ → Reader ε β σ} {I : σ → Prop} (hbody : ∀ s, I s → Ensures (body s) I)
    {n : ℕ} {s : σ} (h : I s) : Ensures (Reader.loop n body s) I := by
  induction n generalizing s with
  | zero => exact pure h
  | succ n ih => exact (hbody s h).bind fun s' hs' => ih hs'

end Ensures

/-! ## How a reader fails -/

namespace Reader

variable {ε α α' β σ : Type}

/-- **The reader fails in certain ways only**, on every input. -/
def FailsWith (Q : ε → Prop) (r : Reader ε β α) : Prop := ∀ c, Outcome.FailsWith Q (r.run c)

namespace FailsWith

variable {Q : ε → Prop} {r : Reader ε β α} {f : α → Reader ε β α'}

theorem pure (a : α) : FailsWith Q (Pure.pure a : Reader ε β α) := fun _ => .ok _

theorem throw {e : ε} (h : Q e) : FailsWith Q (throw e : Reader ε β α) := fun _ => .error h

/-- What stands behind a failure is not reached. -/
theorem throw_bind {e : ε} (h : Q e) : FailsWith Q ((MonadExcept.throw e : Reader ε β α) >>= f) :=
  fun _ => .error h

/-- A computation that reads nothing. -/
theorem lift {x : Except ε α} (h : Outcome.FailsWith Q x) :
    FailsWith Q (liftM x : Reader ε β α) := by
  intro c e he
  cases x with
  | error e' =>
    cases he
    exact h _ rfl
  | ok a => cases he

/-- **One reader after another**, the second on what the first accepts. -/
theorem bind {P : α → Prop} (hr : FailsWith Q r) (hP : Ensures r P)
    (hf : ∀ a, P a → FailsWith Q (f a)) : FailsWith Q (r >>= f) := by
  intro c
  rw [StateT.run_bind]
  exact (hr c).bind fun ⟨a, c'⟩ hrun => hf a (hP c a c' hrun) c'

/-- On anything. -/
theorem next (hr : FailsWith Q r) (hf : ∀ a, FailsWith Q (f a)) : FailsWith Q (r >>= f) :=
  hr.bind .any fun a _ => hf a

theorem take {e : ε} (h : Q e) (n : ℕ) : FailsWith Q (Reader.take e n : Reader ε β (List β)) := by
  intro c
  rw [StateT.run, Reader.take]
  split
  · exact .error h
  · exact .ok _

theorem loop {body : σ → Reader ε β σ} (hbody : ∀ s, FailsWith Q (body s)) (n : ℕ) (s : σ) :
    FailsWith Q (Reader.loop n body s) := by
  induction n generalizing s with
  | zero => exact pure s
  | succ n ih => exact (hbody s).next fun s' => ih s'

theorem times (hr : FailsWith Q r) (n : ℕ) : FailsWith Q (Reader.times n r) :=
  loop (fun _ => hr.next fun _ => pure _) n []

end FailsWith

/-- What is taken off the input has the length that was asked for. -/
theorem ensures_take {e : ε} (n : ℕ) :
    Ensures (take e n : Reader ε β (List β)) fun taken => taken.length = n := by
  intro c taken c' hrun
  rw [StateT.run, take] at hrun
  split at hrun
  · cases hrun
  · rename_i hfits
    obtain ⟨rfl, -⟩ := Prod.mk.inj (Except.ok.inj hrun)
    rw [length_take, c.length_rest]
    omega

end Reader

/-! ## Round trips -/

/-- **The reader gives back what the writer writes**, if it writes at
all. -/
def RoundTrips {ε α β : Type} (w : List β → Except ε (List β)) (r : Reader ε β α) (a : α) : Prop :=
  ∀ out out', w out = .ok out' → ∃ written, out' = out ++ written ∧ Reads r written a

namespace RoundTrips

variable {ε α α' β σ : Type} {w w' : List β → Except ε (List β)} {r : Reader ε β α}
  {f : α → Reader ε β α'} {a : α} {b : α'}

/-- What writes the input of a reader. -/
theorem of_reads {written : List β} (h : Reads r written a) :
    RoundTrips (fun out => .ok (out ++ written)) r a := by
  intro out out' hw
  obtain rfl := Except.ok.inj hw
  exact ⟨written, rfl, h⟩

/-- A writer that refuses some values. -/
theorem guarded {p : Prop} [Decidable p] {e : ε} (h : ¬p → RoundTrips w r a) :
    RoundTrips (fun out => if p then .error e else w out) r a := by
  intro out out' hw
  obtain ⟨hp, hw⟩ := ite_error_eq_ok.1 hw
  exact h hp out out' hw

/-- **One value after another.** -/
theorem bind (hw : RoundTrips w r a) (hw' : RoundTrips w' (f a) b) :
    RoundTrips (fun out => w out >>= w') (r >>= f) b := by
  intro out out' h
  obtain ⟨mid, hmid, h⟩ := bind_eq_ok.1 h
  obtain ⟨first, rfl, hfirst⟩ := hw out mid hmid
  obtain ⟨second, rfl, hsecond⟩ := hw' _ out' h
  exact ⟨first ++ second, append_assoc _ _ _, hfirst.bind hsecond⟩

/-- A computation at the end that reads nothing. -/
theorem finish (hw : RoundTrips w r a) (hf : Reads (f a) [] b) : RoundTrips w (r >>= f) b := by
  intro out out' h
  obtain ⟨written, rfl, hread⟩ := hw out out' h
  exact ⟨written, rfl, hread.finish hf⟩

/-- A computation at the start that reads nothing. -/
theorem start {s : Reader ε β α} {f : α → Reader ε β α'} (hs : Reads s [] a)
    (hw : RoundTrips w (f a) b) : RoundTrips w (s >>= f) b := by
  intro out out' h
  obtain ⟨written, rfl, hread⟩ := hw out out' h
  exact ⟨written, rfl, hs.bind hread⟩

/-- **A list, element by element.** The state of the reader is told by the
elements it has read. -/
theorem loop {w : List β → α → Except ε (List β)} {body : σ → Reader ε β σ} {l : List α}
    (state : List α → σ)
    (h : ∀ before a after, l = before ++ a :: after →
      RoundTrips (fun out => w out a) (body (state before)) (state (before ++ [a]))) :
    RoundTrips (fun out => l.foldlM w out) (Reader.loop l.length body (state [])) (state l) := by
  -- the elements that are read move over to the state
  induction l generalizing state with
  | nil =>
    intro out out' hw
    obtain rfl := Except.ok.inj hw
    exact ⟨[], (append_nil _).symm, .pure _⟩
  | cons a l ih =>
    have hrest := ih (fun before => state (a :: before)) fun before a' after hsplit =>
      h (a :: before) a' after (by rw [hsplit]; rfl)
    exact (h [] a l rfl).bind hrest

theorem times {w : List β → α → Except ε (List β)} {r : Reader ε β α'} {g : α → α'} {l : List α}
    (h : ∀ a ∈ l, RoundTrips (fun out => w out a) r (g a)) :
    RoundTrips (fun out => l.foldlM w out) (Reader.times l.length r) (l.map g) := by
  refine loop (map g) fun before a after hsplit => ?_
  have hmem : a ∈ l := by
    rw [hsplit]
    exact mem_append_right _ mem_cons_self
  rw [map_append]
  exact (h a hmem).finish (.pure _)

end RoundTrips

/-! ## Numbers as bytes -/

/-- The next byte of a number, put on top of the bits below it. -/
theorem mod_or_byte {n k w : ℕ} (h : k + 8 ≤ w) :
    n % 2 ^ k ||| ((n >>> k &&& 255) % 2 ^ 8) <<< k % 2 ^ w = n % 2 ^ (k + 8) := by
  have hbyte : n >>> k &&& 255 = n >>> k % 2 ^ 8 := Nat.and_two_pow_sub_one_eq_mod _ 8
  refine Nat.eq_of_testBit_eq fun i => ?_
  rw [hbyte]
  simp only [Nat.testBit_lor, Nat.testBit_mod_two_pow, Nat.testBit_shiftLeft,
    Nat.testBit_shiftRight]
  by_cases hlow : i < k
  · have hbelow : ¬i ≥ k := by omega
    have hin : i < k + 8 := by omega
    simp [hlow, hbelow, hin]
  · by_cases hhigh : i < k + 8
    · have hw : i < w := by omega
      have hge : i ≥ k := by omega
      have hbit : i - k < 8 := by omega
      have hplace : k + (i - k) = i := by omega
      simp [hlow, hhigh, hw, hge, hbit, hplace]
    · have hbit : ¬i - k < 8 := by omega
      simp [hlow, hhigh, hbit]

/-- A byte put on top of the bits below it adds its multiple. -/
theorem or_byte {low byte k w : ℕ} (hlow : low < 2 ^ k) (hbyte : byte < 2 ^ 8) (h : k + 8 ≤ w) :
    low ||| byte <<< k % 2 ^ w = low + byte * 2 ^ k := by
  have hfits : byte <<< k < 2 ^ w := by
    rw [Nat.shiftLeft_eq]
    calc byte * 2 ^ k < 2 ^ 8 * 2 ^ k := Nat.mul_lt_mul_of_pos_right hbyte (Nat.two_pow_pos k)
      _ = 2 ^ (k + 8) := by rw [← Nat.pow_add, Nat.add_comm]
      _ ≤ 2 ^ w := Nat.pow_le_pow_right (by decide) h
  rw [Nat.mod_eq_of_lt hfits, Nat.or_comm, ← Nat.shiftLeft_add_eq_or_of_lt hlow, Nat.shiftLeft_eq,
    Nat.add_comm]

end Shoveler
