import Unravel.Proofs.Exchange.Cover

/-! How statements nest, and what their tokens say of it. An `else` belongs to the nearest `if` that is
still open, so the tokens of nested statements can be read back as soon as no consequent of an `if`
with `else` ends in an open `if`. -/

namespace Unravel

inductive Nesting.Token where
  | plain (statement : Estree)
  | opening
  | closing
  | head (kind : Kind) (parts : List Estree)
  | «do»
  | semicolon
  | «if» (test : Estree)
  | «else»

inductive Nesting where
  | plain (statement : Estree)
  | block (items : List Nesting)
  | headed (kind : Kind) (parts : List Estree) (body : Nesting)
  | doWhile (body : Nesting) (test : Estree)
  | choose (test : Estree) (yes : Nesting)
  | chooseElse (test : Estree) (yes no : Nesting)

namespace Nesting

mutual

def tokens : Nesting → List Token
  | .plain e => [.plain e]
  | .block items => .opening :: (tokensItems items ++ [.closing])
  | .headed kind parts body => .head kind parts :: tokens body
  | .doWhile body test => .do :: (tokens body ++ [.head .whileStatement [test], .semicolon])
  | .choose test yes => .if test :: tokens yes
  | .chooseElse test yes no => .if test :: (tokens yes ++ .else :: tokens no)

def tokensItems : List Nesting → List Token
  | [] => []
  | item :: items => tokens item ++ tokensItems items

end

mutual

/-- Reads one statement. After the consequent of an `if` an `else` is taken for its own. -/
def read : Nat → List Token → Option (Nesting × List Token)
  | 0, _ => none
  | fuel + 1, ts =>
    match ts with
    | .plain e :: ts => some (.plain e, ts)
    | .opening :: ts => do
      let (items, ts) ← readItems fuel ts
      return (.block items, ts)
    | .head kind parts :: ts => do
      let (body, ts) ← read fuel ts
      return (.headed kind parts body, ts)
    | .do :: ts => do
      let (body, ts) ← read fuel ts
      match ts with
      | .head .whileStatement [test] :: .semicolon :: ts => return (.doWhile body test, ts)
      | _ => none
    | .if test :: ts => do
      let (yes, ts) ← read fuel ts
      match ts with
      | .else :: ts => do
        let (no, ts) ← read fuel ts
        return (.chooseElse test yes no, ts)
      | ts => return (.choose test yes, ts)
    | _ => none

def readItems : Nat → List Token → Option (List Nesting × List Token)
  | 0, _ => none
  | fuel + 1, ts =>
    match ts with
    | .closing :: ts => some ([], ts)
    | ts => do
      let (item, ts) ← read fuel ts
      let (items, ts) ← readItems fuel ts
      return (item :: items, ts)

end

/-- Reads one statement and what follows it; no statement has more statements in it than tokens. -/
def parse (ts : List Token) : Option (Nesting × List Token) := read ts.length ts

def endsOpen : Nesting → Bool
  | .headed _ _ body => body.endsOpen
  | .choose _ _ => true
  | .chooseElse _ _ no => no.endsOpen
  | _ => false

mutual

def Clear : Nesting → Prop
  | .plain _ => True
  | .block items => ClearItems items
  | .headed _ _ body => body.Clear
  | .doWhile body _ => body.Clear
  | .choose _ yes => yes.Clear
  | .chooseElse _ yes no => yes.endsOpen = false ∧ yes.Clear ∧ no.Clear

def ClearItems : List Nesting → Prop
  | [] => True
  | item :: items => item.Clear ∧ ClearItems items

end

def items : Nesting → List Nesting
  | .block items => items
  | s => [s]

theorem Clear.items {s : Nesting} (h : s.Clear) : ClearItems s.items := by
  cases s with
  | block => exact h
  | _ => exact ⟨h, trivial⟩

theorem clearItems_iff {items : List Nesting} : ClearItems items ↔ ∀ item ∈ items, item.Clear := by
  induction items with
  | nil => simp [ClearItems]
  | cons item items ih => simp [ClearItems, ih]

/-! Reading the tokens of a statement gives the statement. -/

theorem exists_tokens_cons (s : Nesting) :
    ∃ token ts, s.tokens = token :: ts ∧ token ≠ .else ∧ token ≠ .closing := by
  cases s <;> exact ⟨_, _, rfl, by simp, by simp⟩

theorem readItems_of_begin {fuel : Nat} {token : Token} {ts : List Token} (h : token ≠ .closing) :
    readItems (fuel + 1) (token :: ts) = (do
      let (item, ts) ← read fuel (token :: ts)
      let (items, ts) ← readItems fuel ts
      return (item :: items, ts)) := by
  cases token <;> first | rfl | exact absurd rfl h

theorem read_if {fuel : Nat} {test : Estree} {yes : Nesting} {ts rest : List Token}
    (hyes : read fuel ts = some (yes, rest)) (hrest : rest.head? ≠ some .else) :
    read (fuel + 1) (.if test :: ts) = some (.choose test yes, rest) := by
  rw [read]
  simp only [hyes, Option.bind_eq_bind, Option.bind_some]
  cases rest with
  | nil => rfl
  | cons token rest =>
    cases token with
    | «else» => exact absurd rfl hrest
    | _ => rfl

theorem read_else {fuel : Nat} {test : Estree} {yes no : Nesting} {ts ts' rest : List Token}
    (hyes : read fuel ts = some (yes, .else :: ts')) (hno : read fuel ts' = some (no, rest)) :
    read (fuel + 1) (.if test :: ts) = some (.chooseElse test yes no, rest) := by
  rw [read]
  simp only [hyes, Option.bind_eq_bind, Option.bind_some, hno]
  rfl

theorem head?_append_ne {s : Nesting} {rest : List Token} :
    (s.tokens ++ rest).head? ≠ some .else := by
  obtain ⟨token, ts, hs, hne, -⟩ := s.exists_tokens_cons
  simpa [hs] using hne

mutual

/-- A clear statement is read back from its tokens, unless it ends open and an `else` follows. -/
theorem read_tokens : (s : Nesting) → {fuel : Nat} → {rest : List Token} → s.Clear →
    (s.endsOpen = true → rest.head? ≠ some .else) → s.tokens.length ≤ fuel →
    read fuel (s.tokens ++ rest) = some (s, rest)
  | s, 0, rest, _, _, hfuel => by
    obtain ⟨token, ts, hs, -⟩ := s.exists_tokens_cons
    rw [hs] at hfuel
    cases hfuel
  | .plain e, fuel + 1, rest, _, _, _ => rfl
  | .block items, fuel + 1, rest, hclear, _, hfuel => by
    have hlength : (tokensItems items).length + 1 ≤ fuel := by simpa [tokens] using hfuel
    have hitems : readItems fuel (tokensItems items ++ .closing :: rest) = some (items, rest) :=
      readItems_tokens items hclear hlength
    have htokens : (block items).tokens ++ rest =
        .opening :: (tokensItems items ++ .closing :: rest) := by simp [tokens]
    rw [htokens, read]
    simp only [hitems]
    rfl
  | .headed kind parts body, fuel + 1, rest, hclear, hopen, hfuel => by
    have hbody := read_tokens body hclear hopen (Nat.le_of_succ_le_succ hfuel)
    rw [tokens, List.cons_append, read]
    simp only [hbody]
    rfl
  | .doWhile body test, fuel + 1, rest, hclear, _, hfuel => by
    have hlength : body.tokens.length + 2 ≤ fuel := by simpa [tokens] using hfuel
    have hbody : read fuel (body.tokens ++ .head .whileStatement [test] :: .semicolon :: rest) =
        some (body, .head .whileStatement [test] :: .semicolon :: rest) :=
      read_tokens body hclear (by simp) (by omega)
    have htokens : (doWhile body test).tokens ++ rest =
        .do :: (body.tokens ++ .head .whileStatement [test] :: .semicolon :: rest) := by simp [tokens]
    rw [htokens, read]
    simp only [hbody]
    rfl
  | .choose test yes, fuel + 1, rest, hclear, hopen, hfuel => by
    have hrest := hopen rfl
    rw [tokens, List.cons_append]
    exact read_if (read_tokens yes hclear (fun _ => hrest) (Nat.le_of_succ_le_succ hfuel)) hrest
  | .chooseElse test yes no, fuel + 1, rest, hclear, hopen, hfuel => by
    obtain ⟨hclosed, hyes, hno⟩ := hclear
    have hlength : yes.tokens.length + (no.tokens.length + 1) ≤ fuel := by simpa [tokens] using hfuel
    have htokens : (chooseElse test yes no).tokens ++ rest =
        .if test :: (yes.tokens ++ .else :: (no.tokens ++ rest)) := by simp [tokens]
    rw [htokens]
    -- the consequent is closed, so the `else` is left for this `if`
    refine read_else (read_tokens yes hyes ?_ (by omega)) (read_tokens no hno hopen (by omega))
    intro hyesOpen
    simp [hclosed] at hyesOpen

theorem readItems_tokens : (items : List Nesting) → {fuel : Nat} → {rest : List Token} →
    ClearItems items → (tokensItems items).length + 1 ≤ fuel →
    readItems fuel (tokensItems items ++ .closing :: rest) = some (items, rest)
  | _, 0, rest, _, hfuel => by cases hfuel
  | [], fuel + 1, rest, _, _ => rfl
  | item :: items, fuel + 1, rest, hclear, hfuel => by
    obtain ⟨hitem, hitems⟩ := hclear
    obtain ⟨token, ts, hs, hne, hne'⟩ := item.exists_tokens_cons
    have hlength : item.tokens.length + (tokensItems items).length ≤ fuel := by
      simpa [tokensItems] using hfuel
    have hpositive : 0 < item.tokens.length := by simp [hs]
    have hfollows : (tokensItems items ++ .closing :: rest).head? ≠ some .else := by
      cases items with
      | nil => simp [tokensItems]
      | cons next items =>
        rw [tokensItems, List.append_assoc]
        exact head?_append_ne
    have hfirst : read fuel (item.tokens ++ (tokensItems items ++ .closing :: rest)) =
        some (item, tokensItems items ++ .closing :: rest) :=
      read_tokens item hitem (fun _ => hfollows) (by omega)
    have hrest : readItems fuel (tokensItems items ++ .closing :: rest) = some (items, rest) :=
      readItems_tokens items hitems (by omega)
    have htokens : tokensItems (item :: items) ++ .closing :: rest =
        token :: (ts ++ (tokensItems items ++ .closing :: rest)) := by simp [tokensItems, hs]
    have hbegin : token :: (ts ++ (tokensItems items ++ .closing :: rest)) =
        item.tokens ++ (tokensItems items ++ .closing :: rest) := by simp [hs]
    rw [htokens, readItems_of_begin hne', hbegin, hfirst]
    simp only [Option.bind_eq_bind, Option.bind_some, hrest]
    rfl

end

theorem parse_tokens {s : Nesting} (hs : s.Clear) {rest : List Token}
    (hrest : rest.head? ≠ some .else) : parse (s.tokens ++ rest) = some (s, rest) :=
  read_tokens s hs (fun _ => hrest) (by simp)

/-- The tokens of `if (a) if (b) x else y`, the `else` meant for `a`, are read with it at `b`. -/
example (a b x y : Estree) :
    parse (chooseElse a (.choose b (.plain x)) (.plain y)).tokens =
      some (.choose a (.chooseElse b (.plain x) (.plain y)), []) := rfl

end Nesting
end Unravel
