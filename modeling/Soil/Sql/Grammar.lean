import Soil.Sql.Kleene

/-!
# SQL conditions: tokens, precedence, meaning

The lexical units of a generated statement, the expression grammar that reads
them with the standard precedence (comparison binds tighter than `NOT`, `NOT`
than `AND`, `AND` than `OR`) and the three-valued meaning of what was read.
-/

namespace Soil.Sql

open List Option Prod

inductive CmpOp where
  | eq
  | gt
  | lt
  deriving DecidableEq, Repr

inductive Token (Val Kw : Type) where
  | ident (name : String)
  | ph (v : Val)
  | raw (text : String) (args : List Val)
  | func (fn : String)
  | lpar
  | rpar
  | dot
  | cmp (op : CmpOp)
  | eqSign
  | isNull
  | and
  | or
  | not
  | alias
  | kw (k : Kw)
  deriving DecidableEq, Repr

inductive Expr (Val : Type) where
  | col (table : Option String) (name : String)
  | lit (v : Val)
  | raw (text : String) (args : List Val)
  | agg (fn : String) (name : String)
  | cmp (op : CmpOp) (l r : Expr Val)
  | isNull (e : Expr Val)
  | not (e : Expr Val)
  | and (l r : Expr Val)
  | or (l r : Expr Val)
  deriving DecidableEq, Repr

/-! ## Reading -/

section

variable {Val Kw : Type}

def parseAtom : List (Token Val Kw) → Option (Expr Val × List (Token Val Kw))
  | .ident t :: .dot :: .ident c :: ts => some (.col (some t) c, ts)
  | .ident c :: ts => some (.col none c, ts)
  | .ph v :: ts => some (.lit v, ts)
  | .func fn :: .lpar :: .ident c :: .rpar :: ts => some (.agg fn c, ts)
  | .lpar :: .raw text args :: .rpar :: ts => some (.raw text args, ts)
  | _ => none

mutual

def parseOr : Nat → List (Token Val Kw) → Option (Expr Val × List (Token Val Kw))
  | 0, _ => none
  | n + 1, ts => (parseAnd n ts).bind fun (e, ts) => parseOrTail n e ts

def parseOrTail : Nat → Expr Val → List (Token Val Kw) →
    Option (Expr Val × List (Token Val Kw))
  | 0, _, _ => none
  | n + 1, e, .or :: ts => (parseAnd n ts).bind fun (r, ts) => parseOrTail n (.or e r) ts
  | _ + 1, e, ts => some (e, ts)

def parseAnd : Nat → List (Token Val Kw) → Option (Expr Val × List (Token Val Kw))
  | 0, _ => none
  | n + 1, ts => (parseNot n ts).bind fun (e, ts) => parseAndTail n e ts

def parseAndTail : Nat → Expr Val → List (Token Val Kw) →
    Option (Expr Val × List (Token Val Kw))
  | 0, _, _ => none
  | n + 1, e, .and :: ts => (parseNot n ts).bind fun (r, ts) => parseAndTail n (.and e r) ts
  | _ + 1, e, ts => some (e, ts)

def parseNot : Nat → List (Token Val Kw) → Option (Expr Val × List (Token Val Kw))
  | 0, _ => none
  | n + 1, .not :: ts => (parseNot n ts).map fun (e, ts) => (.not e, ts)
  | n + 1, ts => parseCmp n ts

def parseCmp : Nat → List (Token Val Kw) → Option (Expr Val × List (Token Val Kw))
  | 0, _ => none
  | n + 1, ts => (parsePrimary n ts).bind fun (e, ts) => parseCmpTail n e ts

def parseCmpTail : Nat → Expr Val → List (Token Val Kw) →
    Option (Expr Val × List (Token Val Kw))
  | 0, _, _ => none
  | n + 1, e, .cmp op :: ts => (parsePrimary n ts).map fun (r, ts) => (.cmp op e r, ts)
  | n + 1, e, .eqSign :: ts => (parsePrimary n ts).map fun (r, ts) => (.cmp .eq e r, ts)
  | _ + 1, e, .isNull :: ts => some (.isNull e, ts)
  | _ + 1, e, ts => some (e, ts)

def parsePrimary : Nat → List (Token Val Kw) → Option (Expr Val × List (Token Val Kw))
  | 0, _ => none
  | n + 1, ts =>
    match parseAtom ts with
    | some r => some r
    | none =>
      match ts with
      | .lpar :: ts => (parseOr n ts).bind fun (e, ts) =>
        match ts with
        | .rpar :: ts => some (e, ts)
        | _ => none
      | _ => none

end

def parse (ts : List (Token Val Kw)) : Option (Expr Val) :=
  match parseOr (6 * ts.length + 6) ts with
  | some (e, []) => some e
  | _ => none

/-! ## How token lists are read

One statement per level of the grammar: the tokens `ts`, followed by anything
that cannot extend them at that level, are read as `e` and consumed exactly.
The fuel a level needs is bounded by six times the tokens it reads. -/

variable {ts us rest : List (Token Val Kw)} {e l r : Expr Val} {n : Nat}

def Ends : List (Token Val Kw) → Prop
  | .dot :: _ | .cmp _ :: _ | .eqSign :: _ | .isNull :: _ => False
  | _ => True

def EndsAnd (rest : List (Token Val Kw)) : Prop := Ends rest ∧ ∀ us, rest ≠ .and :: us

def ReadsPrimary (ts : List (Token Val Kw)) (e : Expr Val) : Prop :=
  ts ≠ [] ∧ ∀ n rest, 6 * ts.length ≤ n + 4 → (∀ us, rest ≠ .dot :: us) →
    parsePrimary n (ts ++ rest) = some (e, rest)

def ReadsNot (ts : List (Token Val Kw)) (e : Expr Val) : Prop :=
  ts ≠ [] ∧ ∀ n rest, 6 * ts.length ≤ n + 2 → Ends rest →
    parseNot n (ts ++ rest) = some (e, rest)

def ReadsAnd (ts : List (Token Val Kw)) (e : Expr Val) : Prop :=
  ts ≠ [] ∧ ∀ n rest, 6 * ts.length ≤ n + 1 → EndsAnd rest →
    parseAnd n (ts ++ rest) = some (e, rest)

def ReadsOr (ts : List (Token Val Kw)) (e : Expr Val) : Prop :=
  ts ≠ [] ∧ ∀ n rest, 6 * ts.length ≤ n → EndsAnd rest → (∀ us, rest ≠ .or :: us) →
    parseOr n (ts ++ rest) = some (e, rest)

theorem Ends.no_dot (ends : Ends rest) (us : List (Token Val Kw)) : rest ≠ .dot :: us := by
  rintro rfl
  exact ends

theorem readsPrimary_of_atom (nonempty : ts ≠ [])
    (atom : ∀ rest, (∀ us, rest ≠ .dot :: us) → parseAtom (ts ++ rest) = some (e, rest)) :
    ReadsPrimary ts e := by
  refine ⟨nonempty, fun n rest fuel noDot => ?_⟩
  have length : 0 < ts.length := length_pos_iff.mpr nonempty
  obtain ⟨n, rfl⟩ : ∃ k, n = k + 1 := ⟨n - 1, by omega⟩
  rw [parsePrimary.eq_def]
  simp [atom rest noDot]

variable {name : String}

theorem readsPrimary_ident : ReadsPrimary ([.ident name] : List (Token Val Kw)) (.col none name) :=
  readsPrimary_of_atom (by simp) fun rest noDot => by
    cases rest with
    | nil => rfl
    | cons t us =>
      cases t with
      | dot => exact absurd rfl (noDot us)
      | _ => rfl

theorem readsPrimary_qualified {table : String} :
    ReadsPrimary ([.ident table, .dot, .ident name] : List (Token Val Kw))
      (.col (some table) name) :=
  readsPrimary_of_atom (by simp) fun _ _ => rfl

theorem readsPrimary_ph {v : Val} : ReadsPrimary ([.ph v] : List (Token Val Kw)) (.lit v) :=
  readsPrimary_of_atom (by simp) fun _ _ => rfl

theorem readsPrimary_agg {fn : String} :
    ReadsPrimary ([.func fn, .lpar, .ident name, .rpar] : List (Token Val Kw)) (.agg fn name) :=
  readsPrimary_of_atom (by simp) fun _ _ => rfl

theorem readsPrimary_raw {text : String} {args : List Val} :
    ReadsPrimary ([.lpar, .raw text args, .rpar] : List (Token Val Kw)) (.raw text args) :=
  readsPrimary_of_atom (by simp) fun _ _ => rfl

theorem ReadsPrimary.head_ne_not (reads : ReadsPrimary ts e) : ts ≠ .not :: us := by
  have run := reads.2 (6 * ts.length) [] (by omega) (by simp)
  rw [append_nil] at run
  have length : 0 < ts.length := length_pos_iff.mpr reads.1
  obtain ⟨k, hk⟩ : ∃ k, 6 * ts.length = k + 1 := ⟨6 * ts.length - 1, by omega⟩
  rw [hk, parsePrimary.eq_def] at run
  rintro rfl
  simp [parseAtom] at run

theorem parseOr_raw (n : Nat) (text : String) (args : List Val) :
    parseOr n (.raw text args :: ts) = none := by
  have primary (n : Nat) : parsePrimary n (.raw text args :: ts) = none := by
    cases n with
    | zero => rw [parsePrimary.eq_def]
    | succ => rw [parsePrimary.eq_def]; rfl
  have cmp (n : Nat) : parseCmp n (.raw text args :: ts) = none := by
    cases n with
    | zero => rw [parseCmp.eq_def]
    | succ => simp [parseCmp, primary]
  have not (n : Nat) : parseNot n (.raw text args :: ts) = none := by
    cases n with
    | zero => rw [parseNot.eq_def]
    | succ => simp [parseNot, cmp]
  have and (n : Nat) : parseAnd n (.raw text args :: ts) = none := by
    cases n with
    | zero => rw [parseAnd.eq_def]
    | succ => simp [parseAnd, not]
  cases n with
  | zero => rw [parseOr.eq_def]
  | succ => simp [parseOr, and]

theorem ReadsOr.paren (reads : ReadsOr ts e) : ReadsPrimary (.lpar :: ts ++ [.rpar]) e := by
  refine ⟨by simp, fun n rest fuel _ => ?_⟩
  simp only [cons_append, length_cons, length_append, length_nil] at fuel
  obtain ⟨n, rfl⟩ : ∃ k, n = k + 1 := ⟨n - 1, by omega⟩
  have inner := reads.2 n (.rpar :: rest) (by omega) ⟨trivial, by simp⟩ (by simp)
  have noAtom : parseAtom (.lpar :: (ts ++ .rpar :: rest)) = none := by
    cases ts with
    | nil => exact absurd rfl reads.1
    | cons t =>
      cases t with
      | raw => simp [parseOr_raw] at inner
      | _ => rfl
  simp only [cons_append, append_assoc, nil_append]
  rw [parsePrimary.eq_def]
  simp [noAtom, inner]

theorem ReadsPrimary.not_step (reads : ReadsPrimary ts e) (fuel : 6 * ts.length ≤ n + 2)
    (noDot : ∀ us, rest ≠ .dot :: us) : parseNot n (ts ++ rest) = parseCmpTail (n - 2) e rest := by
  have length : 0 < ts.length := length_pos_iff.mpr reads.1
  obtain ⟨n, rfl⟩ : ∃ k, n = k + 2 := ⟨n - 2, by omega⟩
  have primary : parseNot (n + 2) (ts ++ rest) = parseCmp (n + 1) (ts ++ rest) := by
    cases ts with
    | nil => exact absurd rfl reads.1
    | cons t =>
      cases t with
      | not => exact absurd rfl reads.head_ne_not
      | _ => rw [parseNot.eq_def]; rfl
  rw [primary, parseCmp.eq_def]
  simp [reads.2 n rest (by omega) noDot]

theorem ReadsPrimary.readsNot (reads : ReadsPrimary ts e) : ReadsNot ts e := by
  refine ⟨reads.1, fun n rest fuel ends => ?_⟩
  have length : 0 < ts.length := length_pos_iff.mpr reads.1
  obtain ⟨n, rfl⟩ : ∃ k, n = k + 3 := ⟨n - 3, by omega⟩
  rw [reads.not_step fuel ends.no_dot, show n + 3 - 2 = n + 1 from rfl]
  cases rest with
  | nil => rw [parseCmpTail.eq_def]
  | cons t =>
    cases t with
    | cmp | eqSign | isNull => exact ends.elim
    | _ => rw [parseCmpTail.eq_def]

theorem ReadsPrimary.cmp {op : CmpOp} (left : ReadsPrimary ts l) (right : ReadsPrimary us r) :
    ReadsNot (ts ++ .cmp op :: us) (.cmp op l r) := by
  refine ⟨by simp, fun n rest fuel ends => ?_⟩
  simp only [length_append, length_cons] at fuel
  obtain ⟨n, rfl⟩ : ∃ k, n = k + 3 := ⟨n - 3, by omega⟩
  rw [append_assoc, left.not_step (by omega) (by simp), show n + 3 - 2 = n + 1 from rfl,
    cons_append, parseCmpTail.eq_def]
  simp [right.2 n rest (by omega) ends.no_dot]

theorem ReadsPrimary.eqSign (left : ReadsPrimary ts l) (right : ReadsPrimary us r) :
    ReadsNot (ts ++ .eqSign :: us) (.cmp .eq l r) := by
  refine ⟨by simp, fun n rest fuel ends => ?_⟩
  simp only [length_append, length_cons] at fuel
  obtain ⟨n, rfl⟩ : ∃ k, n = k + 3 := ⟨n - 3, by omega⟩
  rw [append_assoc, left.not_step (by omega) (by simp), show n + 3 - 2 = n + 1 from rfl,
    cons_append, parseCmpTail.eq_def]
  simp [right.2 n rest (by omega) ends.no_dot]

theorem ReadsPrimary.isNull (reads : ReadsPrimary ts e) :
    ReadsNot (ts ++ [.isNull]) (.isNull e) := by
  refine ⟨by simp, fun n rest fuel ends => ?_⟩
  simp only [length_append, length_cons] at fuel
  obtain ⟨n, rfl⟩ : ∃ k, n = k + 3 := ⟨n - 3, by omega⟩
  rw [append_assoc, reads.not_step (by omega) (by simp), show n + 3 - 2 = n + 1 from rfl,
    cons_append, parseCmpTail.eq_def]
  rfl

theorem ReadsNot.not (reads : ReadsNot ts e) : ReadsNot (.not :: ts) (.not e) := by
  refine ⟨by simp, fun n rest fuel ends => ?_⟩
  simp only [length_cons] at fuel
  obtain ⟨n, rfl⟩ : ∃ k, n = k + 1 := ⟨n - 1, by omega⟩
  rw [cons_append, parseNot.eq_def]
  simp [reads.2 n rest (by omega) ends]

/-! ### Conjunctions -/

def joinAnd : List (List (Token Val Kw)) → List (Token Val Kw)
  | [] => []
  | ts :: rest => ts ++ rest.flatMap (.and :: ·)

@[simp] theorem joinAnd_singleton : joinAnd [ts] = ts := by simp [joinAnd]

theorem joinAnd_append {xs ys : List (List (Token Val Kw))} (left : xs ≠ []) (right : ys ≠ []) :
    joinAnd (xs ++ ys) = joinAnd xs ++ .and :: joinAnd ys := by
  obtain ⟨-, -, rfl⟩ := exists_cons_of_ne_nil left
  obtain ⟨-, -, rfl⟩ := exists_cons_of_ne_nil right
  simp [joinAnd]

theorem joinAnd_cons {ys : List (List (Token Val Kw))} (right : ys ≠ []) :
    joinAnd (ts :: ys) = ts ++ .and :: joinAnd ys := by
  obtain ⟨-, -, rfl⟩ := exists_cons_of_ne_nil right
  simp [joinAnd]

def ReadsConj (ts : List (Token Val Kw)) (es : List (Expr Val)) : Prop :=
  ∃ items : List (List (Token Val Kw) × Expr Val), items ≠ [] ∧
    ts = joinAnd (items.map Prod.fst) ∧ es = items.map Prod.snd ∧
    ∀ item ∈ items, ReadsNot item.1 item.2

theorem ReadsNot.readsConj (reads : ReadsNot ts e) : ReadsConj ts [e] :=
  ⟨[(ts, e)], by simp, by simp, rfl, by simpa using reads⟩

theorem ReadsConj.append {es fs : List (Expr Val)} (left : ReadsConj ts es)
    (right : ReadsConj us fs) : ReadsConj (ts ++ .and :: us) (es ++ fs) := by
  obtain ⟨items, nonempty, rfl, rfl, reads⟩ := left
  obtain ⟨items', nonempty', rfl, rfl, reads'⟩ := right
  refine ⟨items ++ items', by simp [nonempty], ?_, by simp, ?_⟩
  · rw [map_append, joinAnd_append (by simpa using nonempty) (by simpa using nonempty')]
  · intro item mem
    exact (mem_append.mp mem).elim (reads item) (reads' item)

theorem readsConj_joinAnd {segs : List (List (Token Val Kw) × List (Expr Val))}
    (nonempty : segs ≠ []) (reads : ∀ seg ∈ segs, ReadsConj seg.1 seg.2) :
    ReadsConj (joinAnd (segs.map fst)) (segs.flatMap snd) := by
  induction segs with
  | nil => exact absurd rfl nonempty
  | cons seg segs ih =>
    have head := reads seg (by simp)
    by_cases last : segs = []
    · subst last
      simpa using head
    · have tail := ih last fun seg mem => reads seg (mem_cons_of_mem _ mem)
      rw [map_cons, flatMap_cons, joinAnd_cons (by simpa using last)]
      exact head.append tail

theorem Ends.conjuncts (ends : Ends rest) (items : List (List (Token Val Kw))) :
    Ends (items.flatMap (.and :: ·) ++ rest) := by
  cases items with
  | nil => exact ends
  | cons => trivial

theorem parseAndTail_conjuncts {items : List (List (Token Val Kw) × Expr Val)}
    (reads : ∀ item ∈ items, ReadsNot item.1 item.2)
    (fuel : 6 * ((items.map fst).flatMap (Token.and :: ·)).length + 1 ≤ n) (ends : EndsAnd rest) :
    parseAndTail n e ((items.map fst).flatMap (.and :: ·) ++ rest) =
      some ((items.map snd).foldl Expr.and e, rest) := by
  induction items generalizing n e with
  | nil =>
    obtain ⟨n, rfl⟩ : ∃ k, n = k + 1 := ⟨n - 1, by omega⟩
    cases rest with
    | nil => rw [parseAndTail.eq_def]; simp
    | cons t us =>
      cases t with
      | and => exact absurd rfl (ends.2 us)
      | _ => rw [parseAndTail.eq_def]; simp
  | cons item items ih =>
    simp only [map_cons, flatMap_cons, length_append, length_cons] at fuel
    obtain ⟨n, rfl⟩ : ∃ k, n = k + 1 := ⟨n - 1, by omega⟩
    have head := (reads item (by simp)).2 n
      ((items.map fst).flatMap (.and :: ·) ++ rest) (by omega) (ends.1.conjuncts _)
    simp only [map_cons, flatMap_cons, cons_append, append_assoc]
    rw [parseAndTail.eq_def]
    simp only [head, bind_some]
    exact ih (fun item mem => reads item (mem_cons_of_mem _ mem)) (by omega)

theorem ReadsConj.readsAnd {es : List (Expr Val)} (reads : ReadsConj ts (e :: es)) :
    ReadsAnd ts (es.foldl Expr.and e) := by
  obtain ⟨items, nonempty, rfl, list, reads⟩ := reads
  obtain ⟨item, items, rfl⟩ := exists_cons_of_ne_nil nonempty
  obtain ⟨rfl, rfl⟩ := List.cons.inj list
  have head := reads item (by simp)
  refine ⟨by simp [joinAnd, head.1], fun n rest fuel ends => ?_⟩
  have length : 0 < item.1.length := length_pos_iff.mpr head.1
  simp only [joinAnd, map_cons, length_append] at fuel
  obtain ⟨n, rfl⟩ : ∃ k, n = k + 1 := ⟨n - 1, by omega⟩
  simp only [joinAnd, map_cons, append_assoc]
  rw [parseAnd.eq_def]
  simp only [head.2 n _ (by omega) (ends.1.conjuncts (items.map fst)), bind_some]
  exact parseAndTail_conjuncts (fun item mem => reads item (mem_cons_of_mem _ mem)) (by omega) ends

theorem ReadsNot.readsAnd (reads : ReadsNot ts e) : ReadsAnd ts e :=
  reads.readsConj.readsAnd

/-! ### Conditions -/

theorem parseOrTail_end (fuel : 0 < n) (noOr : ∀ us, rest ≠ .or :: us) :
    parseOrTail n e rest = some (e, rest) := by
  obtain ⟨n, rfl⟩ : ∃ k, n = k + 1 := ⟨n - 1, by omega⟩
  cases rest with
  | nil => rw [parseOrTail.eq_def]
  | cons t us =>
    cases t with
    | or => exact absurd rfl (noOr us)
    | _ => rw [parseOrTail.eq_def]

theorem ReadsAnd.readsOr (reads : ReadsAnd ts e) : ReadsOr ts e := by
  refine ⟨reads.1, fun n rest fuel ends noOr => ?_⟩
  have length : 0 < ts.length := length_pos_iff.mpr reads.1
  obtain ⟨n, rfl⟩ : ∃ k, n = k + 2 := ⟨n - 2, by omega⟩
  rw [parseOr.eq_def]
  simp only [reads.2 (n + 1) rest (by omega) ends, bind_some]
  exact parseOrTail_end (by omega) noOr

theorem ReadsAnd.or (left : ReadsAnd ts l) (right : ReadsAnd us r) :
    ReadsOr (ts ++ .or :: us) (.or l r) := by
  refine ⟨by simp, fun n rest fuel ends noOr => ?_⟩
  have length : 0 < ts.length := length_pos_iff.mpr left.1
  simp only [length_append, length_cons] at fuel
  obtain ⟨n, rfl⟩ : ∃ k, n = k + 3 := ⟨n - 3, by omega⟩
  rw [append_assoc, parseOr.eq_def]
  simp only [cons_append,
    left.2 (n + 2) (.or :: (us ++ rest)) (by omega) ⟨trivial, by simp⟩, bind_some]
  rw [parseOrTail.eq_def]
  simp only [right.2 (n + 1) rest (by omega) ends, bind_some]
  exact parseOrTail_end (by omega) noOr

theorem ReadsOr.parse (reads : ReadsOr ts e) : parse ts = some e := by
  have run := reads.2 (6 * ts.length + 6) [] (by omega) ⟨trivial, by simp⟩ (by simp)
  rw [append_nil] at run
  simp [Sql.parse, run]

/-! ### Aliases are never read

No rule of the grammar consumes `AS`, so a condition that contains it is not
read at all. -/

def Consumes (ts rest : List (Token Val Kw)) : Prop :=
  ∃ pre, ts = pre ++ rest ∧ Token.alias ∉ pre

theorem Consumes.refl (ts : List (Token Val Kw)) : Consumes ts ts := ⟨[], rfl, by simp⟩

theorem Consumes.trans {first second third : List (Token Val Kw)}
    (left : Consumes first second) (right : Consumes second third) : Consumes first third := by
  obtain ⟨pre, rfl, free⟩ := left
  obtain ⟨pre', rfl, free'⟩ := right
  exact ⟨pre ++ pre', by simp, by simp [free, free']⟩

theorem Consumes.cons {t : Token Val Kw} (other : t ≠ .alias) (tail : Consumes ts rest) :
    Consumes (t :: ts) rest := by
  obtain ⟨pre, rfl, free⟩ := tail
  exact ⟨t :: pre, rfl, by simp [free, other.symm]⟩

theorem parseAtom_consumes (run : parseAtom ts = some (e, rest)) : Consumes ts rest := by
  unfold parseAtom at run
  split at run <;> simp only [some.injEq, mk.injEq, reduceCtorEq] at run <;>
    obtain ⟨-, rfl⟩ := run
  · exact .cons (by simp) (.cons (by simp) (.cons (by simp) (.refl _)))
  · exact .cons (by simp) (.refl _)
  · exact .cons (by simp) (.refl _)
  · exact .cons (by simp) (.cons (by simp) (.cons (by simp) (.cons (by simp) (.refl _))))
  · exact .cons (by simp) (.cons (by simp) (.cons (by simp) (.refl _)))

structure ConsumesAt (Val Kw : Type) (n : Nat) : Prop where
  or : ∀ {ts rest : List (Token Val Kw)} {e}, parseOr n ts = some (e, rest) → Consumes ts rest
  orTail : ∀ {ts rest : List (Token Val Kw)} {l e},
    parseOrTail n l ts = some (e, rest) → Consumes ts rest
  and : ∀ {ts rest : List (Token Val Kw)} {e}, parseAnd n ts = some (e, rest) → Consumes ts rest
  andTail : ∀ {ts rest : List (Token Val Kw)} {l e},
    parseAndTail n l ts = some (e, rest) → Consumes ts rest
  not : ∀ {ts rest : List (Token Val Kw)} {e}, parseNot n ts = some (e, rest) → Consumes ts rest
  cmp : ∀ {ts rest : List (Token Val Kw)} {e}, parseCmp n ts = some (e, rest) → Consumes ts rest
  cmpTail : ∀ {ts rest : List (Token Val Kw)} {l e},
    parseCmpTail n l ts = some (e, rest) → Consumes ts rest
  primary : ∀ {ts rest : List (Token Val Kw)} {e},
    parsePrimary n ts = some (e, rest) → Consumes ts rest

theorem parsePrimary_consumes (ih : ConsumesAt Val Kw n)
    (run : parsePrimary (n + 1) ts = some (e, rest)) : Consumes ts rest := by
  rw [parsePrimary.eq_def] at run
  cases atom : parseAtom ts with
  | some =>
    simp only [atom, some.injEq] at run
    exact parseAtom_consumes (run ▸ atom)
  | none =>
    simp only [atom] at run
    split at run
    · obtain ⟨⟨inner, us⟩, first, close⟩ := bind_eq_some_iff.mp run
      dsimp only at close
      split at close
      · cases close
        exact .cons (by simp) ((ih.or first).trans (.cons (by simp) (.refl _)))
      · cases close
    · cases run

theorem parseCmpTail_consumes (ih : ConsumesAt Val Kw n)
    (run : parseCmpTail (n + 1) l ts = some (e, rest)) : Consumes ts rest := by
  rw [parseCmpTail.eq_def] at run
  split at run
  · cases ‹_›
  · obtain ⟨⟨_, _⟩, operand, out⟩ := map_eq_some_iff.mp run
    cases ‹n + 1 = _›
    cases out
    exact .cons (by simp) (ih.primary operand)
  · obtain ⟨⟨_, _⟩, operand, out⟩ := map_eq_some_iff.mp run
    cases ‹n + 1 = _›
    cases out
    exact .cons (by simp) (ih.primary operand)
  · cases run
    exact .cons (by simp) (.refl _)
  · cases run
    exact .refl _

theorem consumesAt (n : Nat) : ConsumesAt Val Kw n := by
  induction n with
  | zero =>
    constructor <;> intro ts rest <;> intros <;>
      simp_all [parseOr, parseOrTail, parseAnd, parseAndTail, parseNot, parseCmp,
        parseCmpTail, parsePrimary]
  | succ n ih =>
    constructor
    case or =>
      intro ts rest e run
      rw [parseOr.eq_def] at run
      obtain ⟨⟨_, _⟩, first, run⟩ := bind_eq_some_iff.mp run
      exact (ih.and first).trans (ih.orTail run)
    case orTail =>
      intro ts rest l e run
      rw [parseOrTail.eq_def] at run
      split at run
      · cases ‹_›
      · cases ‹n + 1 = _›
        obtain ⟨⟨_, _⟩, first, run⟩ := bind_eq_some_iff.mp run
        exact .cons (by simp) ((ih.and first).trans (ih.orTail run))
      · cases run
        exact .refl _
    case and =>
      intro ts rest e run
      rw [parseAnd.eq_def] at run
      obtain ⟨⟨_, _⟩, first, run⟩ := bind_eq_some_iff.mp run
      exact (ih.not first).trans (ih.andTail run)
    case andTail =>
      intro ts rest l e run
      rw [parseAndTail.eq_def] at run
      split at run
      · cases ‹_›
      · cases ‹n + 1 = _›
        obtain ⟨⟨_, _⟩, first, run⟩ := bind_eq_some_iff.mp run
        exact .cons (by simp) ((ih.not first).trans (ih.andTail run))
      · cases run
        exact .refl _
    case not =>
      intro ts rest e run
      rw [parseNot.eq_def] at run
      split at run
      · cases ‹_›
      · cases ‹n + 1 = _›
        obtain ⟨⟨_, _⟩, operand, out⟩ := map_eq_some_iff.mp run
        cases out
        exact .cons (by simp) (ih.not operand)
      · cases ‹n + 1 = _›
        exact ih.cmp run
    case cmp =>
      intro ts rest e run
      rw [parseCmp.eq_def] at run
      obtain ⟨⟨_, _⟩, first, run⟩ := bind_eq_some_iff.mp run
      exact (ih.primary first).trans (ih.cmpTail run)
    case cmpTail => exact parseCmpTail_consumes ih
    case primary => exact parsePrimary_consumes ih

theorem parse_eq_none_of_alias (mem : Token.alias ∈ ts) : parse ts = none := by
  unfold parse
  split
  · rename_i e run
    obtain ⟨pre, split, free⟩ := (consumesAt _).or run
    rw [append_nil] at split
    exact absurd (split ▸ mem) free
  · rfl

end

/-! ## Meaning -/

/-- What a database makes of values, columns, aggregates, comparisons and raw
text.  `truth` reads a value as a condition and `ofTri` is the value of a
condition used as an operand; a condition survives that round trip. -/
structure Interp (Val Row SqlVal : Type) where
  bind : Val → SqlVal
  col : Option String → String → Row → SqlVal
  agg : String → String → Row → SqlVal
  raw : String → List Val → Row → SqlVal
  cmp : CmpOp → SqlVal → SqlVal → Tri
  null : SqlVal → Bool
  truth : SqlVal → Tri
  ofTri : Tri → SqlVal
  truth_ofTri : ∀ t, truth (ofTri t) = t

section

variable {Val Row SqlVal : Type} (I : Interp Val Row SqlVal)

def Expr.eval (row : Row) : Expr Val → SqlVal
  | .col t c => I.col t c row
  | .lit v => I.bind v
  | .raw text args => I.raw text args row
  | .agg fn c => I.agg fn c row
  | .cmp op l r => I.ofTri (I.cmp op (l.eval row) (r.eval row))
  | .isNull e => I.ofTri (Tri.ofBool (I.null (e.eval row)))
  | .not e => I.ofTri (I.truth (e.eval row)).not
  | .and l r => I.ofTri ((I.truth (l.eval row)).and (I.truth (r.eval row)))
  | .or l r => I.ofTri ((I.truth (l.eval row)).or (I.truth (r.eval row)))

def Expr.Holds (row : Row) (e : Expr Val) : Prop := I.truth (e.eval I row) = .true

instance (row : Row) (e : Expr Val) : Decidable (e.Holds I row) :=
  inferInstanceAs (Decidable (_ = _))

variable {I} {row : Row}

@[simp] theorem Expr.holds_and {l r : Expr Val} :
    (Expr.and l r).Holds I row ↔ l.Holds I row ∧ r.Holds I row := by
  simp [Holds, eval, I.truth_ofTri]

@[simp] theorem Expr.holds_or {l r : Expr Val} :
    (Expr.or l r).Holds I row ↔ l.Holds I row ∨ r.Holds I row := by
  simp [Holds, eval, I.truth_ofTri]

variable {e : Expr Val}

@[simp] theorem Expr.holds_isNull : (Expr.isNull e).Holds I row ↔ I.null (e.eval I row) = true := by
  simp [Holds, eval, I.truth_ofTri]

theorem Expr.holds_foldl_and {es : List (Expr Val)} :
    (es.foldl Expr.and e).Holds I row ↔ e.Holds I row ∧ ∀ x ∈ es, x.Holds I row := by
  induction es generalizing e with
  | nil => simp
  | cons x es ih => simp [ih, and_assoc]

end

end Soil.Sql
