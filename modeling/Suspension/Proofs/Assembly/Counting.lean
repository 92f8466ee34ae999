import Suspension.Proofs.Assembly.Soundness

/-!
# How many classes a text holds

Every character gives at most one token, and every class takes at least one.  So **a text has no more
classes than bytes**, and one more for the end.

* `Utf8.length_chars_le`, `Token.length_scan_le`, `Assembly.length_classes_le` — characters, tokens and
  classes.
-/

namespace Suspension

namespace Utf8

lemma length_itemsFrom_le (n : Nat) (t : Text) : (itemsFrom n t).length ≤ t.length := by
  induction t generalizing n with
  | nil => simp [itemsFrom]
  | cons b t ih =>
      cases n with
      | zero => exact Nat.succ_le_succ (ih _)
      | succ n => exact Nat.le_succ_of_le (ih n)

/-- There are no more characters than bytes. -/
lemma length_chars_le (t : Text) : (chars t).length ≤ t.length := by
  rw [chars, List.length_map]
  exact length_itemsFrom_le 0 t

end Utf8

namespace Token

lemma exists_rest {t : Token} {r : Except TokenError (List Token)} {toks : List Token}
    (h : (do return t :: (← r)) = .ok toks) : ∃ rest, r = .ok rest ∧ toks = t :: rest := by
  cases r with
  | error e => cases h
  | ok rest =>
      cases h
      exact ⟨rest, rfl, rfl⟩

lemma length_scanFrom_le {fuel : Nat} {cs : List Char} {line : Nat} {toks : List Token}
    (h : scanFrom fuel cs line = .ok toks) : toks.length ≤ fuel := by
  induction fuel generalizing cs line toks with
  | zero =>
      cases h
      exact Nat.le_refl 0
  | succ fuel ih =>
      have htake : ∀ {t : Token} {cs : List Char} {line : Nat},
          (do return t :: (← scanFrom fuel cs line)) = .ok toks → toks.length ≤ fuel + 1 := by
        intro t cs line h
        obtain ⟨rest, hrest, rfl⟩ := exists_rest h
        exact Nat.succ_le_succ (ih hrest)
      have hskip : ∀ {cs : List Char} {line : Nat},
          scanFrom fuel cs line = .ok toks → toks.length ≤ fuel + 1 :=
        fun h => Nat.le_succ_of_le (ih h)
      cases cs with
      | nil =>
          cases h
          exact Nat.zero_le _
      | cons c cs =>
          unfold scanFrom at h
          dsimp only at h
          split at h
          · exact hskip h
          split at h
          · exact hskip h
          split at h
          · exact hskip h
          split at h
          · exact htake h
          split at h
          · exact htake h
          split at h
          · split at h
            · cases h
            split at h
            · cases h
            · exact htake h
          split at h
          · exact htake h
          split at h
          · split at h
            · exact htake h
            · exact htake h
          · cases h

/-- **There are no more tokens than bytes.** -/
lemma length_scan_le {source : Text} {toks : List Token} (h : scan source = .ok toks) :
    toks.length ≤ source.length :=
  Nat.le_trans (length_scanFrom_le h) (Utf8.length_chars_le source)

end Token

namespace Assembly

lemma yields_classForms (n : Nat) : Yields (classForms n) fun cs => cs.length ≤ n := by
  induction n with
  | zero => exact .pure (Nat.le_refl 0)
  | succ n ih =>
      refine .after get fun toks => .ite (.pure (Nat.zero_le _)) ?_
      exact .after classForm fun c => ih.bind fun cs hcs => .pure (Nat.succ_le_succ hcs)

/-- **A text has no more classes than bytes**, and one more. -/
lemma length_classes_le {source : Text} {cs : List Class} (h : classes source = .ok cs) :
    cs.length ≤ source.length + 1 := by
  unfold classes at h
  split at h
  · cases h
  next toks htoks =>
  split at h
  · cases h
  next htokens =>
  cases h
  unfold ofTokens at htokens
  split at htokens
  · cases htokens
  · cases htokens
  · next hforms =>
      cases htokens
      exact Nat.le_trans (yields_classForms _ _ _ _ hforms)
        (Nat.succ_le_succ (Token.length_scan_le htoks))

end Assembly

end Suspension
