import Maxql.Lib.Program

/-!
# Programs that read tokens

A program whose state holds the tokens that are still to be read, and which
goes on after an error.  A grammar relates the tokens at hand to a value and
the tokens behind it.  `Reads p G` says that `p` always returns, that it is
without an error at the end only if there was none at the start and what it
took is good and described by `G`, and that it returns every value that `G`
gives where all tokens are good.

* `Reads.bind`, `Reads.branch`, `Reads.pure`: the rules of a sequence;
* `sepBy`: items with a separator between them, `readsAt_sepBy` its rule;
* `itemsUntil`: items up to a closing token, `readsAt_itemsUntil` its rule;
* `Printed`: the grammar of the values that are printed as tokens, and
  `sepBy_printed` for lists of them.
-/

namespace Program

/-- What a list of tokens starts with: the value read and the tokens behind it. -/
abbrev Grammar (τ α : Type) := List τ → α → List τ → Prop

namespace Grammar

variable {τ α β : Type}

/-- Nothing is read. -/
def ret (a : α) : Grammar τ α := fun ts b rest => b = a ∧ rest = ts

/-- One after the other. -/
def seq (G : Grammar τ α) (H : α → Grammar τ β) : Grammar τ β :=
  fun ts b rest => ∃ a mid, G ts a mid ∧ H a mid b rest

/-- Nothing fits. -/
def fail : Grammar τ α := fun _ _ _ => False

/-- Whether the next token is `t`, which is then taken. -/
def accept (t : τ) : Grammar τ Bool :=
  fun ts b rest => (b = true ∧ ts = t :: rest) ∨ (b = false ∧ ts.head? ≠ some t ∧ rest = ts)

/-- The token `t`. -/
def one (t : τ) : Grammar τ Unit := fun ts _ rest => ts = t :: rest

/-- `G` behind the token `t`, and `H` where there is none. -/
def branch (t : τ) (G H : Grammar τ α) : Grammar τ α :=
  fun ts a rest => (∃ mid, ts = t :: mid ∧ G mid a rest) ∨ (ts.head? ≠ some t ∧ H ts a rest)

/-- Items of `G` with `t` between them, up to an item that `t` does not follow. -/
inductive SepBy (t : τ) (G : Grammar τ α) : List τ → List α → List τ → Prop where
  | last {ts a rest} (hitem : G ts a rest) (hend : rest.head? ≠ some t) : SepBy t G ts [a] rest
  | more {ts a mid as rest} (hitem : G ts a (t :: mid)) (hrest : SepBy t G mid as rest) :
      SepBy t G ts (a :: as) rest

/-- Items of `G` up to the token `stop`; `t` may stand behind each of them. -/
inductive Until (stop t : τ) (G : Grammar τ α) : List τ → List α → List τ → Prop where
  | done {ts} (hstop : ts.head? = some stop) : Until stop t G ts [] ts
  | more {ts a mid b mid' as rest} (hgo : ts.head? ≠ some stop) (hitem : G ts a mid)
      (hsep : accept t mid b mid') (hrest : Until stop t G mid' as rest) :
      Until stop t G ts (a :: as) rest

/-- What is printed as tokens.  A value may only be read where the tokens behind it do not
belong to it. -/
def Printed (tokens : α → List τ) (Valid : α → Prop) (Ends : α → List τ → Prop) : Grammar τ α :=
  fun ts a rest => ts = tokens a ++ rest ∧ Valid a ∧ Ends a rest

/-- The tokens of a list with a separator. -/
def separated (t : τ) (tokens : α → List τ) : List α → List τ
  | [] => []
  | [a] => tokens a
  | a :: b :: as => tokens a ++ t :: separated t tokens (b :: as)

variable {t : τ} {tokens : α → List τ} {Valid : α → Prop} {Ends : α → List τ → Prop}

/-- What is not printed as nothing takes a token. -/
theorem Printed.length_lt (htokens : ∀ a, tokens a ≠ []) {ts : List τ} {a : α} {rest : List τ}
    (h : Printed tokens Valid Ends ts a rest) : rest.length < ts.length := by
  obtain ⟨rfl, -, -⟩ := h
  rw [List.length_append]
  exact Nat.lt_add_of_pos_left (List.length_pos_iff.2 (htokens a))

/-- A list is read where its separator does not follow and its last item ends. -/
theorem sepBy_printed (hsep : ∀ a rest, Ends a (t :: rest)) {ts : List τ} {as : List α}
    {rest : List τ} :
    SepBy t (Printed tokens Valid Ends) ts as rest ↔
      ts = separated t tokens as ++ rest ∧ (as ≠ [] ∧ ∀ a ∈ as, Valid a) ∧
        rest.head? ≠ some t ∧ ∀ a ∈ as.getLast?, Ends a rest := by
  constructor
  · intro h
    induction h with
    | last hitem hend =>
      obtain ⟨rfl, hvalid, hends⟩ := hitem
      exact ⟨rfl, ⟨List.cons_ne_nil _ _, by simpa using hvalid⟩, hend, by simpa using hends⟩
    | @more ts a mid as rest hitem hrest ih =>
      obtain ⟨rfl, hvalid, -⟩ := hitem
      obtain ⟨rfl, ⟨hne, hall⟩, hend, hends⟩ := ih
      cases as with
      | nil => exact absurd rfl hne
      | cons b as =>
        refine ⟨by simp [separated], ⟨List.cons_ne_nil _ _, ?_⟩, hend, by simpa using hends⟩
        exact List.forall_mem_cons.2 ⟨hvalid, hall⟩
  · rintro ⟨rfl, ⟨hne, hall⟩, hend, hends⟩
    induction as with
    | nil => exact absurd rfl hne
    | cons a as ih =>
      obtain ⟨hvalid, hall⟩ := List.forall_mem_cons.1 hall
      cases as with
      | nil => exact .last ⟨rfl, hvalid, hends a rfl⟩ hend
      | cons b as =>
        have hrest := ih (List.cons_ne_nil b as) hall (by simpa using hends)
        have hitem : Printed tokens Valid Ends
            (tokens a ++ t :: (separated t tokens (b :: as) ++ rest)) a
            (t :: (separated t tokens (b :: as) ++ rest)) := ⟨rfl, hvalid, hsep a _⟩
        simpa [separated] using SepBy.more hitem hrest

/-- Printed items, each with a separator behind it, are read up to a closing token that none of
them starts with. -/
theorem until_printed {stop : τ} (hstop : ∀ a rest, (tokens a ++ rest).head? ≠ some stop)
    (hsep : ∀ a rest, Ends a (t :: rest)) {as : List α} (hvalid : ∀ a ∈ as, Valid a)
    (rest : List τ) :
    Until stop t (Printed tokens Valid Ends) (as.flatMap (fun a => tokens a ++ [t]) ++ stop :: rest)
      as (stop :: rest) := by
  induction as with
  | nil => exact .done rfl
  | cons a as ih =>
    obtain ⟨ha, hvalid⟩ := List.forall_mem_cons.1 hvalid
    have hts : (a :: as).flatMap (fun a => tokens a ++ [t]) ++ stop :: rest
        = tokens a ++ t :: (as.flatMap (fun a => tokens a ++ [t]) ++ stop :: rest) := by
      rw [List.flatMap_cons, List.append_assoc, List.append_assoc]
      rfl
    rw [hts]
    exact .more (hstop a _) ⟨rfl, ha, hsep a _⟩ (.inl ⟨rfl, rfl⟩) (ih hvalid)

end Grammar

/-- Items with a separator between them: `do` an item `while` the separator follows. -/
def sepBy {σ α : Type} (item : Prog σ α) (sep : Prog σ Bool) : Nat → Prog σ (List α)
  | 0 => liftM (Except.error .outOfFuel : Checked (List α))
  | fuel + 1 => do
    let a ← item
    if ← sep then
      let as ← sepBy item sep fuel
      return a :: as
    else return [a]

/-- Items `while` the condition holds, with an optional separator behind each of them. -/
def itemsUntil {σ α : Type} (goOn : Prog σ Bool) (item : Prog σ α) (sep : Prog σ Bool) :
    Nat → Prog σ (List α)
  | 0 => liftM (Except.error .outOfFuel : Checked (List α))
  | fuel + 1 => do
    if ← goOn then
      let a ← item
      let _ ← sep
      let as ← itemsUntil goOn item sep fuel
      return a :: as
    else return []

/-- How a state holds the tokens that are still to be read. -/
structure TokenReader (σ τ : Type) where
  /-- What every state keeps. -/
  Inv : σ → Prop
  /-- No error has been met. -/
  Ok : σ → Prop
  view : σ → List τ
  /-- The tokens that may be met without an error. -/
  Good : τ → Prop

variable {σ τ α β : Type} {R : TokenReader σ τ}

def ReadsAt (R : TokenReader σ τ) (p : Prog σ α) (s : σ) (G : Grammar τ α) : Prop :=
  ∃ a s', Runs p s a s' ∧ R.Inv s' ∧ R.view s' <:+ R.view s ∧
    (R.Ok s' → R.Ok s ∧ (∀ t ∈ R.view s, t ∈ R.view s' ∨ R.Good t) ∧
      G (R.view s) a (R.view s')) ∧
    (R.Ok s → (∀ t ∈ R.view s, R.Good t) → ∀ b rest, G (R.view s) b rest →
      R.Ok s' ∧ a = b ∧ R.view s' = rest)

def Reads (R : TokenReader σ τ) (p : Prog σ α) (G : Grammar τ α) : Prop :=
  ∀ s, R.Inv s → ReadsAt R p s G

/-- What a program has read if there is no error after it. -/
theorem ReadsAt.sound {p : Prog σ α} {s s' : σ} {a : α} {G : Grammar τ α}
    (hp : ReadsAt R p s G) (hrun : Runs p s a s') (hok : R.Ok s') :
    R.Ok s ∧ G (R.view s) a (R.view s') := by
  obtain ⟨a', s₁, hrun', -, -, hsound, -⟩ := hp
  obtain ⟨rfl, rfl⟩ := hrun.unique hrun'
  obtain ⟨hok, -, hG⟩ := hsound hok
  exact ⟨hok, hG⟩

/-- The second part of a sequence meets a state that the first one may leave. -/
theorem ReadsAt.bind {p : Prog σ α} {f : α → Prog σ β} {s : σ} {G : Grammar τ α}
    {H : α → Grammar τ β} (hp : ReadsAt R p s G)
    (hf : ∀ a s', Runs p s a s' → R.Inv s' → R.view s' <:+ R.view s → ReadsAt R (f a) s' (H a)) :
    ReadsAt R (p >>= f) s (G.seq H) := by
  obtain ⟨a, s', hrun, hinv, hsuffix, hsound, hcomplete⟩ := hp
  obtain ⟨b, s'', hrun', hinv', hsuffix', hsound', hcomplete'⟩ := hf a s' hrun hinv hsuffix
  refine ⟨b, s'', hrun.bind hrun', hinv', hsuffix'.trans hsuffix, ?_, ?_⟩
  · intro hok
    obtain ⟨hok', hgood', hH⟩ := hsound' hok
    obtain ⟨hok'', hgood, hG⟩ := hsound hok'
    refine ⟨hok'', fun t ht => ?_, a, R.view s', hG, hH⟩
    exact (hgood t ht).elim (hgood' t) .inr
  · rintro hok hgood c rest ⟨a', mid, hG, hH⟩
    obtain ⟨hok', rfl, rfl⟩ := hcomplete hok hgood a' mid hG
    exact hcomplete' hok' (fun t ht => hgood t (hsuffix.mem ht)) c rest hH

theorem ReadsAt.congr {p : Prog σ α} {s : σ} {G H : Grammar τ α} (hp : ReadsAt R p s G)
    (h : ∀ a rest, G (R.view s) a rest ↔ H (R.view s) a rest) : ReadsAt R p s H := by
  obtain ⟨a, s', hrun, hinv, hsuffix, hsound, hcomplete⟩ := hp
  refine ⟨a, s', hrun, hinv, hsuffix, fun hok => ?_, fun hok hgood b rest hH => ?_⟩
  · obtain ⟨hok', hgood, hG⟩ := hsound hok
    exact ⟨hok', hgood, (h a _).1 hG⟩
  · exact hcomplete hok hgood b rest ((h b rest).2 hH)

/-- A first part that only looks. -/
theorem ReadsAt.look {p : Prog σ α} {f : α → Prog σ β} {s : σ} {a : α} {G : Grammar τ β}
    (hp : Runs p s a s) (hf : ReadsAt R (f a) s G) : ReadsAt R (p >>= f) s G := by
  obtain ⟨b, s', hrun, h⟩ := hf
  exact ⟨b, s', hp.bind hrun, h⟩

theorem Reads.bind {p : Prog σ α} {f : α → Prog σ β} {G : Grammar τ α} {H : α → Grammar τ β}
    (hp : Reads R p G) (hf : ∀ a, Reads R (f a) (H a)) : Reads R (p >>= f) (G.seq H) :=
  fun s hs => (hp s hs).bind fun a s' _ hs' _ => hf a s' hs'

theorem Reads.congr {p : Prog σ α} {G H : Grammar τ α} (hp : Reads R p G)
    (h : ∀ ts a rest, G ts a rest ↔ H ts a rest) : Reads R p H :=
  fun s hs => (hp s hs).congr (h (R.view s))

theorem Reads.pure (a : α) : Reads R (pure a) (Grammar.ret a) :=
  fun s hs => ⟨a, s, .pure a s, hs, List.suffix_rfl, fun hok => ⟨hok, fun _ => .inl, rfl, rfl⟩,
    fun hok _ _ _ h => ⟨hok, h.1.symm, h.2.symm⟩⟩

/-- A branch on the next token. -/
theorem Reads.branch {c : Prog σ Bool} {p q : Prog σ α} {t : τ} {G H : Grammar τ α}
    (hc : Reads R c (Grammar.accept t)) (hp : Reads R p G) (hq : Reads R q H) :
    Reads R (c >>= fun b => if b = true then p else q) (Grammar.branch t G H) := by
  have hseq := hc.bind (f := fun b => if b = true then p else q)
    (H := fun b => if b = true then G else H) fun b => by cases b <;> simpa
  refine hseq.congr fun ts a rest => ?_
  constructor
  · rintro ⟨b, mid, ⟨rfl, rfl⟩ | ⟨rfl, hhead, rfl⟩, h⟩
    · exact .inl ⟨mid, rfl, h⟩
    · exact .inr ⟨hhead, h⟩
  · rintro (⟨mid, rfl, h⟩ | ⟨hhead, h⟩)
    · exact ⟨true, mid, .inl ⟨rfl, rfl⟩, h⟩
    · exact ⟨false, ts, .inr ⟨rfl, hhead, rfl⟩, h⟩

/-- A token without which there is an error. -/
theorem Reads.expect {c : Prog σ Bool} {e : Prog σ Unit} {t : τ}
    (hc : Reads R c (Grammar.accept t)) (he : Reads R e Grammar.fail) :
    Reads R (c >>= fun b => if (!b) = true then e else Pure.pure ()) (Grammar.one t) := by
  have hseq := hc.bind (f := fun b => if (!b) = true then e else Pure.pure ())
    (H := fun b => if (!b) = true then Grammar.fail else Grammar.ret ()) fun b => by
      cases b
      · exact he
      · exact Reads.pure ()
  refine hseq.congr fun ts a rest => ?_
  constructor
  · rintro ⟨b, mid, ⟨rfl, rfl⟩ | ⟨rfl, -, -⟩, h⟩
    · rw [show rest = mid from h.2]
      rfl
    · exact h.elim
  · rintro rfl
    exact ⟨true, rest, .inl ⟨rfl, rfl⟩, rfl, rfl⟩

/-- What comes after an error changes nothing. -/
theorem Reads.fail_bind {p : Prog σ α} {f : α → Prog σ β} {H : α → Grammar τ β}
    (hp : Reads R p Grammar.fail) (hf : ∀ a, Reads R (f a) (H a)) :
    Reads R (p >>= f) Grammar.fail :=
  (hp.bind hf).congr fun _ _ _ => ⟨fun ⟨_, _, h, _⟩ => h, False.elim⟩

/-- The rule for a list.  The fuel is enough because every separator is a token. -/
theorem readsAt_sepBy {item : Prog σ α} {sep : Prog σ Bool} {t : τ} {G : Grammar τ α}
    (hitem : Reads R item G) (hsep : Reads R sep (Grammar.accept t))
    (hshorter : ∀ s s', R.Inv s → Runs sep s true s' → (R.view s').length < (R.view s).length)
    {fuel : Nat} {s : σ} (hs : R.Inv s) (hfuel : (R.view s).length < fuel) :
    ReadsAt R (sepBy item sep fuel) s (Grammar.SepBy t G) := by
  induction fuel generalizing s with
  | zero => exact absurd hfuel (Nat.not_lt_zero _)
  | succ fuel ih =>
    have hrun : ReadsAt R (sepBy item sep (fuel + 1)) s (G.seq fun a =>
        (Grammar.accept t).seq fun b =>
          if b = true then Grammar.seq (Grammar.SepBy t G) fun as => Grammar.ret (a :: as)
          else Grammar.ret [a]) := by
      refine (hitem s hs).bind fun a s₁ _ hs₁ hsuffix₁ => ?_
      refine (hsep s₁ hs₁).bind fun b s₂ hrun₂ hs₂ hsuffix₂ => ?_
      cases b with
      | false => exact Reads.pure [a] s₂ hs₂
      | true =>
        have hlt := hshorter s₁ s₂ hs₁ hrun₂
        have hle := hsuffix₁.length_le
        exact (ih hs₂ (by omega)).bind fun as s₃ _ hs₃ _ => Reads.pure (a :: as) s₃ hs₃
    refine hrun.congr fun as rest => ?_
    constructor
    · rintro ⟨a, mid, ha, b, mid', ⟨rfl, rfl⟩ | ⟨rfl, hhead, rfl⟩, h⟩
      · obtain ⟨as', rest', has, rfl, rfl⟩ := h
        exact .more ha has
      · obtain ⟨rfl, rfl⟩ := h
        exact .last ha hhead
    · intro h
      cases h with
      | last ha hhead => exact ⟨_, _, ha, false, _, .inr ⟨rfl, hhead, rfl⟩, rfl, rfl⟩
      | more ha has => exact ⟨_, _, ha, true, _, .inl ⟨rfl, rfl⟩, _, _, has, rfl, rfl⟩

/-- The rule for the items up to a closing token.  The fuel is enough because an item without an
error takes a token, and a round after an error is the last one. -/
theorem readsAt_itemsUntil {goOn : Prog σ Bool} {item : Prog σ α} {sep : Prog σ Bool}
    {stop t : τ} {G : Grammar τ α}
    (hgo : ∀ s, R.Inv s → ∃ b, Runs goOn s b s ∧
      (b = true ↔ R.Ok s ∧ (R.view s).head? ≠ some stop))
    (hitem : Reads R item G) (hsep : Reads R sep (Grammar.accept t))
    (hshorter : ∀ ts a rest, G ts a rest → rest.length < ts.length)
    {fuel : Nat} {s : σ} (hs : R.Inv s) (hpos : 0 < fuel)
    (hfuel : R.Ok s → (R.view s).length + 1 < fuel) :
    ReadsAt R (itemsUntil goOn item sep fuel) s (Grammar.Until stop t G) := by
  induction fuel generalizing s with
  | zero => exact absurd hpos (Nat.lt_irrefl 0)
  | succ fuel ih =>
    obtain ⟨b, hrun, hb⟩ := hgo s hs
    refine ReadsAt.look hrun ?_
    cases b with
    | false =>
      refine ⟨[], s, .pure _ s, hs, List.suffix_rfl, fun hok => ?_, fun hok _ as rest h => ?_⟩
      · have hstop : (R.view s).head? = some stop := by
          by_contra hne
          exact Bool.false_ne_true (hb.2 ⟨hok, hne⟩)
        exact ⟨hok, fun _ => .inl, .done hstop⟩
      · cases h with
        | done => exact ⟨hok, rfl, rfl⟩
        | more hne => exact absurd (hb.2 ⟨hok, hne⟩) Bool.false_ne_true
    | true =>
      obtain ⟨hok, hne⟩ := hb.1 rfl
      have hround : ReadsAt R (item >>= fun a => sep >>= fun _ =>
          itemsUntil goOn item sep fuel >>= fun as => (pure (a :: as) : Prog σ (List α))) s
          (G.seq fun a => (Grammar.accept t).seq fun _ =>
            Grammar.seq (Grammar.Until stop t G) fun as => Grammar.ret (a :: as)) := by
        refine (hitem s hs).bind fun a s₁ hrun₁ hs₁ _ => ?_
        refine (hsep s₁ hs₁).bind fun b s₂ hrun₂ hs₂ hsuffix₂ => ?_
        have hlen : R.Ok s₂ → (R.view s₂).length + 1 < fuel := by
          intro hok₂
          obtain ⟨hok₁, -⟩ := (hsep s₁ hs₁).sound hrun₂ hok₂
          obtain ⟨-, hG⟩ := (hitem s hs).sound hrun₁ hok₁
          have hlt := hshorter _ _ _ hG
          have hle := hsuffix₂.length_le
          have hfuel := hfuel hok
          omega
        have hpos : 0 < fuel := by
          have hfuel := hfuel hok
          omega
        exact (ih hs₂ hpos hlen).bind fun as s₃ _ hs₃ _ => Reads.pure (a :: as) s₃ hs₃
      refine hround.congr fun as rest => ?_
      constructor
      · rintro ⟨a, mid, ha, b, mid', hb, as', rest', has, rfl, rfl⟩
        exact .more hne ha hb has
      · intro h
        cases h with
        | done hstop => exact absurd hstop hne
        | more _ ha hb has => exact ⟨_, _, ha, _, _, hb, _, _, has, rfl, rfl⟩

end Program
