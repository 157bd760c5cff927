import EspModemLink.Library.Runs
import Mathlib.Algebra.GroupWithZero.Nat

/-!
# Room behind what is held back

Messages arrive in pieces at a receiver that takes each message as soon as it is complete and holds
back the rest. Whether what is held back ever leaves too little room for the next piece depends on
the sizes of the messages and of the pieces alone.
-/

namespace Backlog

/-! ## Sizes -/

/-- What is left of `n` units when the complete ones of the messages of these sizes are taken. -/
def remainder : List ℕ → ℕ → ℕ
  | [], n => n
  | size :: sizes, n => if size ≤ n then remainder sizes (n - size) else n

/-- Behind `n` units, every piece finds room behind what is left of the units in front of it. -/
def Fits (limit : ℕ) (sizes : List ℕ) : ℕ → List ℕ → Prop
  | _, [] => True
  | n, piece :: pieces =>
      remainder sizes n + piece ≤ limit ∧ Fits limit sizes (n + piece) pieces

instance Fits.decidable (limit : ℕ) (sizes : List ℕ) :
    (n : ℕ) → (pieces : List ℕ) → Decidable (Fits limit sizes n pieces)
  | _, [] => isTrue trivial
  | n, piece :: pieces =>
      have : Decidable (Fits limit sizes (n + piece) pieces) := Fits.decidable limit sizes _ _
      inferInstanceAs (Decidable (remainder sizes n + piece ≤ limit ∧ _))

/-- Messages that were taken leave what is there of the one behind them. -/
theorem remainder_eq {sizes : List ℕ} {m n left : ℕ} (htaken : (sizes.take m).sum + left = n)
    (hpart : ∀ size ∈ sizes[m]?, left < size) : remainder sizes n = left := by
  induction sizes generalizing m n with
  | nil =>
      rw [List.take_nil, List.sum_nil, Nat.zero_add] at htaken
      rw [remainder, htaken]
  | cons size sizes ih =>
      cases m with
      | zero =>
          have hlt : left < size := hpart size rfl
          rw [List.take_zero, List.sum_nil, Nat.zero_add] at htaken
          rw [remainder, if_neg (by omega), htaken]
      | succ m =>
          rw [List.take_succ_cons, List.sum_cons] at htaken
          rw [remainder, if_pos (by omega)]
          exact ih (by omega) hpart

/-! ## Receivers -/

variable {σ ι β : Type*}

/-- A receiver with a limit. `Stands arrived` says where it stands when `arrived` has come in and
nothing was in the way, and `Doomed` that a piece has come in that finds no room, which only a step
that `stop` holds of answers. -/
structure Limited (step : Runs.Step σ ι) (stop P : σ → ι → σ → Prop) (piece : ι → Option (List β))
    (stream : List β) (limit : ℕ) (sizes : List ℕ) (Stands : List β → σ → Prop)
    (Doomed : σ → Prop) : Prop where
  silent : ∀ {arrived s l s'}, Stands arrived s → arrived <+: stream → piece l = none → P s l s' →
    step s l = some s' → Stands arrived s' ∧ ¬stop s l s'
  fits : ∀ {arrived s l s' data}, Stands arrived s → arrived ++ data <+: stream →
    piece l = some data → remainder sizes arrived.length + data.length ≤ limit → P s l s' →
    step s l = some s' → Stands (arrived ++ data) s' ∧ ¬stop s l s'
  exceeds : ∀ {arrived s l s' data}, Stands arrived s → arrived ++ data <+: stream →
    piece l = some data → limit < remainder sizes arrived.length + data.length → P s l s' →
    step s l = some s' → Doomed s'
  doomed : ∀ {s l s'}, Doomed s → P s l s' → step s l = some s' → ¬stop s l s' → Doomed s'

variable {step : Runs.Step σ ι} {stop P : σ → ι → σ → Prop} {piece : ι → Option (List β)}
  {stream arrived : List β} {limit : ℕ} {sizes : List ℕ} {Stands : List β → σ → Prop}
  {Doomed : σ → Prop} {s s' : σ} {ls : List ι}

/-- The sizes of the pieces that a run brings in. -/
def pieceSizes (piece : ι → Option (List β)) (ls : List ι) : List ℕ :=
  (ls.filterMap piece).map List.length

/-- The units that a run brings in. -/
def unitsIn (piece : ι → Option (List β)) (ls : List ι) : List β := (ls.filterMap piece).flatten

theorem unitsIn_cons (l : ι) (ls : List ι) :
    unitsIn piece (l :: ls) = (piece l).getD [] ++ unitsIn piece ls := by
  cases h : piece l with
  | none => simp [unitsIn, h]
  | some data => simp [unitsIn, h]

/-- Pieces that fit are received, and nothing stops the receiver. -/
theorem Limited.run_fits (hr : Limited step stop P piece stream limit sizes Stands Doomed)
    (hstands : Stands arrived s) (hok : Runs.AlongUntil step stop P s ls)
    (hstream : arrived ++ unitsIn piece ls <+: stream)
    (hfits : Fits limit sizes arrived.length (pieceSizes piece ls))
    (hrun : Runs.exec step s ls = some s') :
    Runs.Along step (fun s l s' => ¬stop s l s') s ls ∧ Stands (arrived ++ unitsIn piece ls) s' := by
  induction ls generalizing s arrived with
  | nil =>
      obtain rfl := Option.some.inj hrun
      rw [unitsIn, List.filterMap_nil, List.flatten_nil, List.append_nil]
      exact ⟨trivial, hstands⟩
  | cons l ls ih =>
      obtain ⟨mid, hl, hrest⟩ := Option.bind_eq_some_iff.mp hrun
      obtain ⟨hthis, hbehind⟩ := hok mid hl
      rw [unitsIn_cons, ← List.append_assoc] at hstream ⊢
      have hfront : arrived ++ (piece l).getD [] <+: stream :=
        (List.prefix_append _ _).trans hstream
      have hmid : Stands (arrived ++ (piece l).getD []) mid ∧ ¬stop s l mid ∧
          Fits limit sizes (arrived ++ (piece l).getD []).length (pieceSizes piece ls) := by
        cases hpiece : piece l with
        | none =>
            rw [hpiece, Option.getD_none, List.append_nil] at hfront
            rw [Option.getD_none, List.append_nil]
            rw [pieceSizes, List.filterMap_cons_none hpiece] at hfits
            obtain ⟨hmid, hgoes⟩ := hr.silent hstands hfront hpiece hthis hl
            exact ⟨hmid, hgoes, hfits⟩
        | some data =>
            rw [hpiece, Option.getD_some] at hfront
            rw [Option.getD_some]
            rw [pieceSizes, List.filterMap_cons_some hpiece] at hfits
            obtain ⟨hroom, hfits⟩ := hfits
            obtain ⟨hmid, hgoes⟩ := hr.fits hstands hfront hpiece hroom hthis hl
            exact ⟨hmid, hgoes, by rw [List.length_append]; exact hfits⟩
      obtain ⟨hstands, hgoes, hfits⟩ := hmid
      obtain ⟨halong, hend⟩ := ih hstands (hbehind hgoes) hstream hfits hrest
      refine ⟨fun s'' hs'' => ?_, hend⟩
      obtain rfl := Option.some.inj (hl.symm.trans hs'')
      exact ⟨hgoes, halong⟩

theorem Limited.run_doomed (hr : Limited step stop P piece stream limit sizes Stands Doomed)
    (hdoomed : Doomed s) (hok : Runs.AlongUntil step stop P s ls)
    (hgoes : Runs.Along step (fun s l s' => ¬stop s l s') s ls)
    (hrun : Runs.exec step s ls = some s') : Doomed s' := by
  induction ls generalizing s with
  | nil => exact Option.some.inj hrun ▸ hdoomed
  | cons l ls ih =>
      obtain ⟨mid, hl, hrest⟩ := Option.bind_eq_some_iff.mp hrun
      obtain ⟨hthis, hbehind⟩ := hok mid hl
      obtain ⟨hgo, htail⟩ := hgoes mid hl
      exact ih (hr.doomed hdoomed hthis hl hgo) (hbehind hgo) htail hrest

/-- A receiver that nothing stops was brought pieces that fit, unless one is still on its way. -/
theorem Limited.run_goes (hr : Limited step stop P piece stream limit sizes Stands Doomed)
    (hstands : Stands arrived s) (hok : Runs.AlongUntil step stop P s ls)
    (hstream : arrived ++ unitsIn piece ls <+: stream)
    (hgoes : Runs.Along step (fun s l s' => ¬stop s l s') s ls)
    (hrun : Runs.exec step s ls = some s') :
    Fits limit sizes arrived.length (pieceSizes piece ls) ∨ Doomed s' := by
  induction ls generalizing s arrived with
  | nil => exact .inl trivial
  | cons l ls ih =>
      obtain ⟨mid, hl, hrest⟩ := Option.bind_eq_some_iff.mp hrun
      obtain ⟨hthis, hbehind⟩ := hok mid hl
      obtain ⟨hgo, htail⟩ := hgoes mid hl
      rw [unitsIn_cons, ← List.append_assoc] at hstream
      have hfront : arrived ++ (piece l).getD [] <+: stream :=
        (List.prefix_append _ _).trans hstream
      cases hpiece : piece l with
      | none =>
          rw [hpiece, Option.getD_none, List.append_nil] at hfront hstream
          rw [pieceSizes, List.filterMap_cons_none hpiece]
          have hmid := (hr.silent hstands hfront hpiece hthis hl).1
          exact ih hmid (hbehind hgo) hstream htail hrest
      | some data =>
          rw [hpiece, Option.getD_some] at hfront hstream
          rw [pieceSizes, List.filterMap_cons_some hpiece]
          obtain hroom | hroom := Nat.lt_or_ge limit (remainder sizes arrived.length + data.length)
          · right
            have hmid := hr.exceeds hstands hfront hpiece hroom hthis hl
            exact hr.run_doomed hmid (hbehind hgo) htail hrest
          · have hmid := (hr.fits hstands hfront hpiece hroom hthis hl).1
            obtain hfits | hdoomed := ih hmid (hbehind hgo) hstream htail hrest
            · left
              rw [List.length_append] at hfits
              exact ⟨hroom, hfits⟩
            · exact .inr hdoomed

end Backlog
