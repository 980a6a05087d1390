/-
When `ParseDep` trips an assertion.

The parser pops two values for every operator it reduces and never checks that they are
there.  After the first value its operator stack is one of four: a bar, if that was the
last token, and below it a comma, if one waits.  A comma waits as long as every value
behind it comes right after a bar, because such a value takes the bar from the stack and
not the comma.

`Pending` is that stack as a function of the tokens alone.  With it the height of the
value stack can be counted: it is the number of values read, less the operators read,
plus those that are pending.  The parser goes through exactly when that number stays
positive (`parseDep_returns_iff`).
-/
import LinuxUtil.Proofs.Apt.Print

namespace LinuxUtil.Apt

/-! ### The scanner ends -/

/-- As many rounds as there are characters are enough. -/
theorem scan_enough :
    ∀ (m n : Nat) (s : List UInt8), s.length ≤ m → s.length ≤ n → scan m s = scan n s := by
  intro m
  induction m with
  | zero =>
      intro n s hm _
      rw [List.length_eq_zero_iff.mp (Nat.le_zero.mp hm)]
      exact (scans_nil n (Nat.zero_le n)).symm
  | succ m ih =>
      intro n s hm hn
      cases n with
      | zero =>
          rw [List.length_eq_zero_iff.mp (Nat.le_zero.mp hn)]
          rfl
      | succ n =>
          cases s with
          | nil => rfl
          | cons ch s =>
              rw [List.length_cons, Nat.succ_le_succ_iff] at hm hn
              have hshort : ∀ t : List UInt8, t.length ≤ s.length → scan m t = scan n t :=
                fun t ht => ih n t (ht.trans hm) (ht.trans hn)
              unfold scan
              rw [hshort s (Nat.le_refl _)]
              rw [hshort ((s.dropWhile (· ≠ 41)).drop 1)
                (((List.drop_sublist 1 _).trans (List.dropWhile_sublist _)).length_le)]
              split
              · rfl
              · next hblank =>
                  split
                  · rfl
                  · next hcomma =>
                      have hch : simple ch = true := by simp [simple, hblank, hcomma]
                      rw [List.dropWhile_cons_of_pos hch]
                      rw [hshort (s.dropWhile simple) (List.dropWhile_sublist _).length_le]

/-! ### The operators that are pending -/

/-- Whether a bar is on top of the operator stack, and whether a comma waits. -/
structure Pending where
  bar : Bool
  comma : Bool

namespace Pending

def none : Pending := ⟨false, false⟩

def count (w : Pending) : Nat := w.bar.toNat + w.comma.toNat

/-- A comma settles everything; a value takes the bar if there is one, and else the comma. -/
def after (w : Pending) (token : Name) : Pending :=
  match Op.ofToken token with
  | some .comma => ⟨false, true⟩
  | some .bar => ⟨true, w.comma⟩
  | Option.none => ⟨false, w.bar && w.comma⟩

/-- The operator stack, its top first. -/
def ops : Pending → List Op
  | ⟨true, true⟩ => [.bar, .comma]
  | ⟨true, false⟩ => [.bar]
  | ⟨false, true⟩ => [.comma]
  | ⟨false, false⟩ => []

end Pending

/-- What is pending behind some tokens. -/
def pending (tokens : List Name) : Pending := tokens.foldl Pending.after Pending.none

def valueCount (tokens : List Name) : Nat := tokens.countP isValue

def operatorCount (tokens : List Name) : Nat := tokens.countP (!isValue ·)

/-- At no point do the operators that were settled use up the values. -/
def Balanced (tokens : List Name) : Prop :=
  ∀ p, p <+: tokens → p ≠ [] → operatorCount p < valueCount p + (pending p).count

/-- The parser gets through: the first token is a value and the rest is balanced, or there are
operators only, too few of them to be reduced. -/
def Digestible (tokens : List Name) : Prop :=
  tokens ∈ [[], [[44]], [[124]], [[44], [124]]]
    ∨ (∃ v, tokens.head? = some v ∧ isValue v = true) ∧ Balanced tokens

/-! ### One token -/

/-- The value stack behind a token is as high as the count says, if that leaves it anything. -/
def Settles (w : Pending) (token : Name) (values values' : List ExprNode) : Prop :=
  values'.length + operatorCount [token] + w.count
    = values.length + valueCount [token] + (w.after token).count

theorem count_value {token : Name} (h : Op.ofToken token = none) :
    operatorCount [token] = 0 ∧ valueCount [token] = 1 := by
  simp [operatorCount, valueCount, isValue, h]

theorem count_operator {token : Name} {op : Op} (h : Op.ofToken token = some op) :
    operatorCount [token] = 1 ∧ valueCount [token] = 0 := by
  simp [operatorCount, valueCount, isValue, h]

/-- A value takes one pending operator, for which there is a value on the stack. -/
theorem parseTokens_value {w : Pending} {token : Name} (hk : Op.ofToken token = none)
    (tokens : List Name) {values : List ExprNode} (hv : values ≠ []) :
    ∃ values', values' ≠ [] ∧ Settles w token values values'
      ∧ parseTokens (token :: tokens) w.ops values
        = parseTokens tokens (w.after token).ops values' := by
  obtain ⟨v, values, rfl⟩ := List.exists_cons_of_ne_nil hv
  obtain ⟨hop, hval⟩ := count_value hk
  have hafter : w.after token = ⟨false, w.bar && w.comma⟩ := by simp [Pending.after, hk]
  unfold Settles
  rw [hop, hval, hafter]
  obtain ⟨bar, comma⟩ := w
  cases bar with
  | true =>
      refine ⟨.operator .bar v (.value token) :: values, List.cons_ne_nil _ _, ?_, ?_⟩
      · cases comma <;> simp [Pending.count]
      · cases comma <;> simp [parseTokens, hk, Pending.ops, popValue, bind, Except.bind]
  | false =>
      cases comma with
      | true =>
          refine ⟨.operator .comma v (.value token) :: values, List.cons_ne_nil _ _, ?_, ?_⟩
          · simp [Pending.count]
          · simp [parseTokens, hk, Pending.ops, popValue, bind, Except.bind]
      | false =>
          refine ⟨.value token :: v :: values, List.cons_ne_nil _ _, ?_, ?_⟩
          · simp [Pending.count]
          · simp [parseTokens, hk, Pending.ops]

/-- One operator is reduced if there are two values. -/
theorem reduce_cons {pred : Nat} {op : Op} (h : pred ≤ op.precedence) (ops : List Op)
    (values : List ExprNode) :
    (∃ left right rest, values = right :: left :: rest
      ∧ reduce pred (op :: ops) values = reduce pred ops (.operator op left right :: rest))
    ∨ values.length < 2 ∧ ∀ r, reduce pred (op :: ops) values ≠ .ok r := by
  have hpred : ¬ op.precedence < pred := by omega
  match values with
  | [] =>
      refine .inr ⟨by simp, fun r hr => ?_⟩
      simp [reduce, hpred, popValue, bind, Except.bind] at hr
  | [v] =>
      refine .inr ⟨by simp, fun r hr => ?_⟩
      simp [reduce, hpred, popValue, bind, Except.bind] at hr
  | right :: left :: rest =>
      refine .inl ⟨left, right, rest, rfl, ?_⟩
      simp [reduce, hpred, popValue, bind, Except.bind]

/-- What an operator leaves of the pending ones. -/
def Pending.kept (w : Pending) : Op → List Op
  | .comma => []
  | .bar => if w.comma then [.comma] else []

theorem after_ops (w : Pending) {token : Name} {op : Op} (hk : Op.ofToken token = some op) :
    (w.after token).ops = op :: w.kept op ∧ (w.after token).count = 1 + (w.kept op).length := by
  obtain ⟨bar, comma⟩ := w
  cases op with
  | comma => simp [Pending.after, hk, Pending.ops, Pending.kept, Pending.count]
  | bar => cases comma <;> simp [Pending.after, hk, Pending.ops, Pending.kept, Pending.count]

/-- The pending operators an operator settles: those above the kept ones. -/
def Pending.settled (w : Pending) : Op → List Op
  | .comma => w.ops
  | .bar => if w.bar then [.bar] else []

theorem ops_eq (w : Pending) (op : Op) :
    w.ops = w.settled op ++ w.kept op
      ∧ w.count = (w.settled op).length + (w.kept op).length
      ∧ (∀ x ∈ w.settled op, op.precedence ≤ x.precedence)
      ∧ ∀ x ∈ w.kept op, x.precedence < op.precedence := by
  obtain ⟨bar, comma⟩ := w
  cases op with
  | comma =>
      cases bar <;> cases comma <;>
        simp [Pending.ops, Pending.settled, Pending.kept, Pending.count, Op.precedence]
  | bar =>
      cases bar <;> cases comma <;>
        simp [Pending.ops, Pending.settled, Pending.kept, Pending.count, Op.precedence]

/-- Every reduction costs one value, and one must be left. -/
theorem reduce_all {pred : Nat} {kept : List Op} (hk : ∀ x ∈ kept, x.precedence < pred) :
    ∀ (xs : List Op) (values : List ExprNode), (∀ x ∈ xs, pred ≤ x.precedence) → values ≠ [] →
      (xs.length < values.length → ∃ values', values' ≠ []
          ∧ values'.length + xs.length = values.length
          ∧ reduce pred (xs ++ kept) values = .ok (kept, values'))
      ∧ (values.length ≤ xs.length → ∀ r, reduce pred (xs ++ kept) values ≠ .ok r) := by
  intro xs
  induction xs with
  | nil =>
      intro values _ hv
      refine ⟨fun _ => ⟨values, hv, rfl, ?_⟩, fun hle => ?_⟩
      · cases kept with
        | nil => rfl
        | cons x kept => simp [reduce, hk x List.mem_cons_self]
      · exact absurd (List.length_eq_zero_iff.mp (Nat.le_zero.mp hle)) hv
  | cons x xs ih =>
      intro values hx _
      rw [List.cons_append, List.length_cons]
      rcases reduce_cons (hx x List.mem_cons_self) (xs ++ kept) values with h | h
      · obtain ⟨left, right, rest, rfl, heq⟩ := h
        rw [heq]
        obtain ⟨hok, hno⟩ := ih (.operator x left right :: rest)
          (fun y hy => hx y (List.mem_cons_of_mem x hy)) (List.cons_ne_nil _ _)
        simp only [List.length_cons] at hok hno ⊢
        refine ⟨fun hlt => ?_, fun hle => hno (by omega)⟩
        obtain ⟨values', hne, hlen, hred⟩ := hok (by omega)
        exact ⟨values', hne, by omega, hred⟩
      · exact ⟨fun hlt => by omega, fun _ => h.2⟩

/-- An operator reduces the stack and goes on top of it. -/
theorem parseTokens_operator {token : Name} {op : Op} (hk : Op.ofToken token = some op)
    (tokens : List Name) (ops : List Op) (values : List ExprNode) :
    parseTokens (token :: tokens) ops values
      = (reduce op.precedence ops values).bind fun st => parseTokens tokens (op :: st.1) st.2 := by
  rw [parseTokens.eq_def]
  simp only [hk]
  cases ops with
  | nil => rfl
  | cons top rest =>
      simp only
      split
      · next hlt => simp [reduce, hlt, Except.bind]
      · rfl

/-- **One token**: the parser goes on exactly if the count leaves a value on the stack. -/
theorem parseTokens_step (w : Pending) (token : Name) (tokens : List Name)
    {values : List ExprNode} (hv : values ≠ []) :
    (∃ values', values' ≠ [] ∧ Settles w token values values'
      ∧ parseTokens (token :: tokens) w.ops values
        = parseTokens tokens (w.after token).ops values')
    ∨ values.length + valueCount [token] + (w.after token).count
        ≤ operatorCount [token] + w.count
      ∧ ∀ r, parseTokens (token :: tokens) w.ops values ≠ .ok r := by
  cases hk : Op.ofToken token with
  | none => exact .inl (parseTokens_value hk tokens hv)
  | some op =>
      obtain ⟨hop, hval⟩ := count_operator hk
      obtain ⟨hafter, hcount⟩ := after_ops w hk
      obtain ⟨hops, hw, hset, hkept⟩ := ops_eq w op
      obtain ⟨hok, hno⟩ := reduce_all hkept (w.settled op) values hset hv
      rw [parseTokens_operator hk, hops, hafter, hcount, hop, hval, hw]
      by_cases hlt : (w.settled op).length < values.length
      · obtain ⟨values', hne, hlen, hred⟩ := hok hlt
        refine .inl ⟨values', hne, ?_, by rw [hred]; rfl⟩
        unfold Settles
        omega
      · refine .inr ⟨by omega, fun r hr => ?_⟩
        cases hred : reduce op.precedence (w.settled op ++ w.kept op) values with
        | error e =>
            rw [hred] at hr
            cases hr
        | ok st => exact hno (by omega) st hred

/-! ### All tokens -/

/-- **The parser gets through exactly if the count stays positive.** -/
theorem parseTokens_iff :
    ∀ (tokens : List Name) (w : Pending) (values : List ExprNode), values ≠ [] →
      ((∃ r, parseTokens tokens w.ops values = .ok r) ↔
        ∀ p, p <+: tokens → operatorCount p + w.count
          < values.length + valueCount p + (p.foldl Pending.after w).count) := by
  intro tokens
  induction tokens with
  | nil =>
      intro w values hv
      have hlen := List.length_pos_iff.mpr hv
      refine ⟨fun _ p hp => ?_, fun _ => ⟨values, rfl⟩⟩
      rw [List.prefix_nil.mp hp]
      simp only [operatorCount, valueCount, List.countP_nil, List.foldl_nil]
      omega
  | cons token tokens ih =>
      intro w values hv
      have hcons : ∀ p, operatorCount (token :: p) = operatorCount [token] + operatorCount p
          ∧ valueCount (token :: p) = valueCount [token] + valueCount p := by
        intro p
        unfold operatorCount valueCount
        rw [← List.singleton_append, List.countP_append, List.countP_append]
        exact ⟨rfl, rfl⟩
      have hlen := List.length_pos_iff.mpr hv
      rcases parseTokens_step w token tokens hv with ⟨values', hne, hset, heq⟩ | ⟨hle, hno⟩
      · unfold Settles at hset
        rw [heq, ih (w.after token) values' hne]
        refine ⟨fun h p hp => ?_, fun h p hp => ?_⟩
        · rcases List.prefix_cons_iff.mp hp with rfl | ⟨q, rfl, hq⟩
          · simp only [operatorCount, valueCount, List.countP_nil, List.foldl_nil]
            omega
          · have := h q hq
            rw [(hcons q).1, (hcons q).2, List.foldl_cons]
            omega
        · have := h (token :: p) (List.cons_prefix_cons.mpr ⟨rfl, hp⟩)
          rw [(hcons p).1, (hcons p).2, List.foldl_cons] at this
          omega
      · refine ⟨fun ⟨r, hr⟩ => absurd hr (hno r), fun h => ?_⟩
        have := h [token] (List.cons_prefix_cons.mpr ⟨rfl, List.nil_prefix⟩)
        rw [List.foldl_cons, List.foldl_nil] at this
        omega

theorem parseTokens_valueFirst {v : Name} (hv : Op.ofToken v = none) (tokens : List Name) :
    (∃ r, parseTokens (v :: tokens) [] [] = .ok r) ↔ Balanced (v :: tokens) := by
  have hfirst : parseTokens (v :: tokens) [] [] = parseTokens tokens Pending.none.ops [.value v] := by
    rw [parseTokens.eq_def]
    simp only [hv]
    rfl
  have hcons : ∀ p, operatorCount (v :: p) = operatorCount p
      ∧ valueCount (v :: p) = valueCount p + 1 := by
    intro p
    simp [operatorCount, valueCount, isValue, hv]
  have hpending : ∀ p, pending (v :: p) = p.foldl Pending.after Pending.none := by
    intro p
    simp [pending, Pending.after, hv, Pending.none]
  have hnone : Pending.none.count = 0 := rfl
  rw [hfirst, parseTokens_iff _ _ _ (List.cons_ne_nil _ _), hnone]
  simp only [List.length_singleton]
  refine ⟨fun h p hp hne => ?_, fun h p hp => ?_⟩
  · rcases List.prefix_cons_iff.mp hp with rfl | ⟨q, rfl, hq⟩
    · exact absurd rfl hne
    · have := h q hq
      rw [(hcons q).1, (hcons q).2, hpending]
      omega
  · have := h (v :: p) (List.cons_prefix_cons.mpr ⟨rfl, hp⟩) (List.cons_ne_nil _ _)
    rw [(hcons p).1, (hcons p).2, hpending] at this
    omega

/-- Without a value on the stack, only a bar behind a comma is survived. -/
theorem parseTokens_stuck {token : Name} {top : Op} (rest : List Op) (tokens : List Name)
    (h : ¬ (token = [124] ∧ top = .comma)) :
    ∀ r, parseTokens (token :: tokens) (top :: rest) [] ≠ .ok r := by
  intro r hr
  cases hk : Op.ofToken token with
  | none =>
      rw [parseTokens.eq_def] at hr
      simp [hk, popValue, bind, Except.bind] at hr
  | some op =>
      have hpred : ¬ top.precedence < op.precedence := by
        intro hlt
        refine h ⟨?_, ?_⟩
        · cases op with
          | comma => cases top <;> simp [Op.precedence] at hlt
          | bar => exact eq_token hk
        · cases top with
          | comma => rfl
          | bar => cases op <;> simp [Op.precedence] at hlt
      rw [parseTokens_operator hk] at hr
      simp [reduce, hpred, popValue, bind, Except.bind] at hr

theorem parseTokens_operatorFirst {token : Name} {op : Op} (hk : Op.ofToken token = some op)
    (tokens : List Name) :
    (∃ r, parseTokens (token :: tokens) [] [] = .ok r) ↔
      token :: tokens ∈ [[], [[44]], [[124]], [[44], [124]]] := by
  have hfirst : parseTokens (token :: tokens) [] [] = parseTokens tokens [op] [] := by
    rw [parseTokens_operator hk]
    rfl
  obtain rfl := eq_token hk
  rw [hfirst]
  cases tokens with
  | nil =>
      refine ⟨fun _ => ?_, fun _ => ⟨[], rfl⟩⟩
      cases op <;> simp [Op.token]
  | cons token tokens =>
      by_cases hbar : token = [124] ∧ op = .comma
      · obtain ⟨rfl, rfl⟩ := hbar
        have hnext : parseTokens ([124] :: tokens) [.comma] [] = parseTokens tokens [.bar, .comma] [] :=
          rfl
        rw [hnext]
        cases tokens with
        | nil => exact ⟨fun _ => by simp [Op.token], fun _ => ⟨[], rfl⟩⟩
        | cons token tokens =>
            have hstuck : ∀ r, parseTokens (token :: tokens) [.bar, .comma] [] ≠ .ok r := by
              refine parseTokens_stuck [.comma] tokens ?_
              rintro ⟨_, hc⟩
              cases hc
            exact ⟨fun ⟨r, hr⟩ => absurd hr (hstuck r), fun h => by simp at h⟩
      · refine ⟨fun ⟨r, hr⟩ => absurd hr (parseTokens_stuck [] tokens hbar r), fun h => ?_⟩
        refine absurd ?_ hbar
        cases op <;> simp_all [Op.token]

theorem parseTokens_digestible (tokens : List Name) :
    (∃ r, parseTokens tokens [] [] = .ok r) ↔ Digestible tokens := by
  unfold Digestible
  cases tokens with
  | nil => exact ⟨fun _ => .inl List.mem_cons_self, fun _ => ⟨[], rfl⟩⟩
  | cons token tokens =>
      cases hk : Op.ofToken token with
      | none =>
          rw [parseTokens_valueFirst hk]
          have hnot : token :: tokens ∉ [[], [[44]], [[124]], [[44], [124]]] := by
            intro hmem
            simp only [List.mem_cons, List.not_mem_nil, List.cons.injEq, or_false] at hmem
            rcases hmem with h | h | h | h
            · cases h
            · rw [h.1] at hk
              cases hk
            · rw [h.1] at hk
              cases hk
            · rw [h.1] at hk
              cases hk
          refine ⟨fun h => .inr ⟨⟨token, rfl, by simp [isValue, hk]⟩, h⟩, fun h => ?_⟩
          exact h.elim (fun h => absurd h hnot) (·.2)
      | some op =>
          rw [parseTokens_operatorFirst hk]
          refine ⟨.inl, fun h => h.elim id fun h => ?_⟩
          obtain ⟨v, hv, hvalue⟩ := h.1
          obtain rfl := Option.some.inj hv
          simp [isValue, hk] at hvalue

theorem parseDep_digestible (depstr : List UInt8) :
    (∃ tree, ParseDep depstr = .ok tree) ↔ Digestible (scan depstr.length depstr) := by
  rw [← parseTokens_digestible]
  unfold ParseDep
  cases parseTokens (scan depstr.length depstr) [] [] with
  | error e =>
      refine ⟨?_, ?_⟩
      · rintro ⟨tree, h⟩
        cases h
      · rintro ⟨r, h⟩
        cases h
  | ok values => exact ⟨fun _ => ⟨values, rfl⟩, fun _ => ⟨values.head?, rfl⟩⟩

/-- **`ParseDep` ends on every string, and returns exactly on those it can digest.** -/
theorem parseDep_returns_iff (depstr : List UInt8) :
    (∀ n, depstr.length ≤ n → scan n depstr = scan depstr.length depstr)
    ∧ ((∃ tree, ParseDep depstr = .ok tree) ↔ Digestible (scan depstr.length depstr)) :=
  ⟨fun n hn => scan_enough n depstr.length depstr hn (Nat.le_refl _), parseDep_digestible depstr⟩

/-- An operator in front of the first value trips the assertion of `pop_value`, and so does one
too many between two values. -/
theorem parseDep_aborts :
    ParseDep (ascii ", foo") = .error (.assertion "!values.empty()")
    ∧ ParseDep (ascii "a , , b") = .error (.assertion "!values.empty()")
    ∧ ¬ ∀ depstr : List UInt8, 0 ∉ depstr → ∃ tree, ParseDep depstr = .ok tree := by
  have hfirst : ParseDep (ascii ", foo") = .error (.assertion "!values.empty()") := by decide
  refine ⟨hfirst, by decide, fun h => ?_⟩
  obtain ⟨tree, htree⟩ := h (ascii ", foo") (by decide)
  rw [hfirst] at htree
  cases htree

end LinuxUtil.Apt
