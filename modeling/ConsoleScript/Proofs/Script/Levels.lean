-- SUMMARY: How deeply lines stand in switches, and the parts that the markers of a switch set off.
import ConsoleScript.Proofs.Script.Placing
import Mathlib.Data.List.Nodup
import Mathlib.Data.Nat.Basic
import Mathlib.Order.Basic

/-!
# Levels

The level of a line is the number of switches that are open before it. A part of
a switch is one of its cases or its default: it begins at its marker and ends at
the next marker on the same level. All of this is said of the lines and their
directives alone, whatever statements are made of them.

The level falls only at the end of a switch, and by one. So a part is never left
before its end (`Part.le_level`), and parts do not overlap unless one of them is
inside of the other (`Part.last_le`).
-/

namespace ConsoleScript

namespace Entry

/-- Whether a line opens a switch. -/
def opensSwitch (e : Entry) : Bool :=
  match e.directive with
  | some (.switch _) => true
  | _ => false

/-- Whether a line ends a switch. -/
def endsSwitch (e : Entry) : Bool :=
  match e.directive with
  | some (.marker .endSwitch) => true
  | _ => false

/-- Whether a line is `<case>`, `<default>`, `<end-case>` or `<end-switch>`. -/
def marksSwitch (e : Entry) : Bool := e.directive.any Grouping.endsCase

/-- The last line of a part of a switch that this marker ends: an `<end-case>` belongs
    to the part, and every other marker comes after it. -/
def lastOfPart (e : Entry) : Nat :=
  match e.directive with
  | some (.marker .endCase) => e.line.number
  | _ => e.line.number - 1

theorem marksSwitch_of_endsSwitch {e : Entry} (h : e.endsSwitch = true) :
    e.marksSwitch = true := by
  unfold endsSwitch at h
  split at h
  case h_1 hd => simp [marksSwitch, hd, Grouping.endsCase]
  case h_2 => cases h

theorem not_opensSwitch_of_endsSwitch {e : Entry} (h : e.endsSwitch = true) :
    e.opensSwitch = false := by
  unfold endsSwitch at h
  split at h
  case h_1 hd => simp [opensSwitch, hd]
  case h_2 => cases h

theorem lastOfPart_le (e : Entry) : e.lastOfPart ≤ e.line.number := by
  unfold lastOfPart
  split <;> omega

theorem le_lastOfPart {e : Entry} {n : Nat} (h : n < e.line.number) : n ≤ e.lastOfPart := by
  unfold lastOfPart
  split <;> omega

end Entry

/-! ## Counting before a line -/

/-- How many of the lines before line `n` have a property. -/
def countBefore (lines : List Entry) (p : Entry → Bool) (n : Nat) : Nat :=
  lines.countP fun e => decide (e.line.number < n) && p e

/-- The number of switches that are open before line `n`. -/
def switchLevel (lines : List Entry) (n : Nat) : Nat :=
  countBefore lines Entry.opensSwitch n - countBefore lines Entry.endsSwitch n

section Counting

variable {lines : List Entry} {p : Entry → Bool} {e : Entry} {n : Nat}

/-- Before the next line stand all lines. -/
theorem countBefore_eq_countP (h : ∀ x ∈ lines, x.line.number < n) :
    countBefore lines p n = lines.countP p := by
  refine List.countP_congr fun x hx => ?_
  simp [h x hx]

theorem countBefore_append (h : n ≤ e.line.number) :
    countBefore (lines ++ [e]) p n = countBefore lines p n := by
  have hnot : ¬ e.line.number < n := by omega
  simp [countBefore, List.countP_append, hnot]

theorem switchLevel_append (h : n ≤ e.line.number) :
    switchLevel (lines ++ [e]) n = switchLevel lines n := by
  simp [switchLevel, countBefore_append h]

theorem countBefore_succ : countBefore lines p (n + 1) =
    countBefore lines p n + lines.countP fun e => e.line.number == n && p e := by
  unfold countBefore
  induction lines with
  | nil => rfl
  | cons x rest ih =>
    rw [List.countP_cons, List.countP_cons, List.countP_cons, ih]
    rcases Nat.lt_trichotomy x.line.number n with h | h | h
    · simp [h, show x.line.number < n + 1 by omega, show x.line.number ≠ n by omega]
      omega
    · simp [h]
      omega
    · simp [show ¬ x.line.number < n by omega, show ¬ x.line.number < n + 1 by omega,
        show x.line.number ≠ n by omega]

/-- Each number belongs to one line. -/
theorem countP_number (hnodup : (lines.map (·.line.number)).Nodup) (he : e ∈ lines) :
    (lines.countP fun x => x.line.number == e.line.number && p x) = if p e then 1 else 0 := by
  induction lines with
  | nil => cases he
  | cons x rest ih =>
    obtain ⟨hx, hrest⟩ := List.nodup_cons.mp hnodup
    rw [List.countP_cons]
    rcases List.mem_cons.mp he with rfl | he
    · have hnone : (rest.countP fun x => x.line.number == e.line.number && p x) = 0 := by
        refine List.countP_eq_zero.mpr fun y hy => ?_
        have hne : y.line.number ≠ e.line.number := fun heq => hx (List.mem_map.mpr ⟨y, hy, heq⟩)
        simp [hne]
      simp [hnone]
    · have hne : x.line.number ≠ e.line.number := fun heq =>
        hx (List.mem_map.mpr ⟨e, he, heq.symm⟩)
      simp [hne, ih hrest he]

theorem countBefore_succ_of_mem (hnodup : (lines.map (·.line.number)).Nodup) (he : e ∈ lines) :
    countBefore lines p (e.line.number + 1) =
      countBefore lines p e.line.number + if p e then 1 else 0 := by
  rw [countBefore_succ, countP_number hnodup he]

theorem countBefore_succ_of_not_mem (h : ∀ x ∈ lines, x.line.number ≠ n) :
    countBefore lines p (n + 1) = countBefore lines p n := by
  rw [countBefore_succ, Nat.add_eq_left]
  exact List.countP_eq_zero.mpr fun x hx => by simp [h x hx]

end Counting

/-! ## How the level changes -/

section Levels

variable {lines : List Entry} (hnodup : (lines.map (·.line.number)).Nodup)
include hnodup

theorem switchLevel_succ_of_ends {e : Entry} (he : e ∈ lines) (hends : e.endsSwitch = true) :
    switchLevel lines (e.line.number + 1) = switchLevel lines e.line.number - 1 := by
  simp only [switchLevel, countBefore_succ_of_mem hnodup he, hends,
    Entry.not_opensSwitch_of_endsSwitch hends, Bool.false_eq_true, if_false, if_true]
  omega

/-- The level falls only at the end of a switch. -/
theorem switchLevel_succ (n : Nat) :
    switchLevel lines n ≤ switchLevel lines (n + 1) ∨
      ∃ e ∈ lines, e.line.number = n ∧ e.endsSwitch = true := by
  by_cases hn : ∃ e ∈ lines, e.line.number = n
  case neg =>
    have hnone : ∀ x ∈ lines, x.line.number ≠ n := fun x hx heq => hn ⟨x, hx, heq⟩
    simp [switchLevel, countBefore_succ_of_not_mem hnone]
  case pos =>
    obtain ⟨e, he, rfl⟩ := hn
    cases hends : e.endsSwitch with
    | false =>
      left
      simp only [switchLevel, countBefore_succ_of_mem hnodup he, hends, Bool.false_eq_true,
        if_false]
      omega
    | true => exact .inr ⟨e, he, rfl, hends⟩

/-- Where the level has fallen, there is a first line that made it fall. -/
theorem exists_first_end {k m d : Nat} (hkm : k ≤ m) (hk : d ≤ switchLevel lines k)
    (hm : switchLevel lines m < d) :
    ∃ e ∈ lines, k ≤ e.line.number ∧ e.line.number < m ∧ e.endsSwitch = true ∧
      switchLevel lines e.line.number = d ∧
      ∀ x ∈ lines, k ≤ x.line.number → x.line.number < e.line.number →
        x.endsSwitch = true → switchLevel lines x.line.number ≠ d := by
  induction hdist : m - k generalizing k with
  | zero =>
    obtain rfl : k = m := by omega
    omega
  | succ distance ih =>
    by_cases hnext : switchLevel lines (k + 1) < d
    case pos =>
      rcases switchLevel_succ hnodup k with hle | ⟨e, he, rfl, hends⟩
      · omega
      · have hfalls := switchLevel_succ_of_ends hnodup he hends
        exact ⟨e, he, Nat.le_refl _, by omega, hends, by omega, fun x _ _ _ => by omega⟩
    case neg =>
      obtain ⟨e, he, hke, hem, hends, hlevel, hfirst⟩ :=
        ih (k := k + 1) (by omega) (by omega) (by omega)
      refine ⟨e, he, by omega, hem, hends, hlevel, fun x hx hkx hxe hxends hxlevel => ?_⟩
      by_cases heq : x.line.number = k
      · have hfalls := switchLevel_succ_of_ends hnodup hx hxends
        rw [hxlevel, heq] at hfalls
        omega
      · exact hfirst x hx (by omega) hxe hxends hxlevel

end Levels

/-! ## The next line of a level -/

/-- There is no line after line `n` on level `l` with a property. -/
def NoneAt (lines : List Entry) (p : Entry → Bool) (l n : Nat) : Prop :=
  ∀ x ∈ lines, n < x.line.number → p x = true → switchLevel lines x.line.number ≠ l

/-- The line `e` is the first after line `n` on level `l` with a property. -/
structure NextAt (lines : List Entry) (p : Entry → Bool) (l n : Nat) (e : Entry) : Prop where
  mem : e ∈ lines
  after : n < e.line.number
  holds : p e = true
  level : switchLevel lines e.line.number = l
  first : ∀ x ∈ lines, n < x.line.number → x.line.number < e.line.number → p x = true →
    switchLevel lines x.line.number ≠ l

section Next

variable {lines : List Entry} {p : Entry → Bool} {l n : Nat} {e x : Entry}

theorem NextAt.le (h : NextAt lines p l n e) (hx : x ∈ lines) (hn : n < x.line.number)
    (hp : p x = true) (hl : switchLevel lines x.line.number = l) :
    e.line.number ≤ x.line.number := by
  by_contra hlt
  exact h.first x hx hn (by omega) hp hl

theorem mem_of_mem_append (hx : x ∈ lines ++ [e]) (hlt : x.line.number < e.line.number) :
    x ∈ lines := by
  rcases List.mem_append.mp hx with hx | hx
  · exact hx
  · obtain rfl := List.mem_singleton.mp hx
    exact absurd hlt (Nat.lt_irrefl _)

variable (hnew : ∀ y ∈ lines, y.line.number < e.line.number)
include hnew

theorem le_of_mem_append (hx : x ∈ lines ++ [e]) : x.line.number ≤ e.line.number := by
  rcases List.mem_append.mp hx with hx | hx
  · exact (hnew x hx).le
  · rw [List.mem_singleton.mp hx]

theorem NextAt.append (h : NextAt lines p l n x) : NextAt (lines ++ [e]) p l n x where
  mem := List.mem_append_left _ h.mem
  after := h.after
  holds := h.holds
  level := by rw [switchLevel_append (hnew x h.mem).le, h.level]
  first y hy hn hlt hp := by
    have hy := mem_of_mem_append hy (hlt.trans (hnew x h.mem))
    rw [switchLevel_append (hnew y hy).le]
    exact h.first y hy hn hlt hp

theorem NoneAt.append (h : NoneAt lines p l n)
    (he : p e = true → switchLevel lines e.line.number ≠ l) : NoneAt (lines ++ [e]) p l n := by
  intro y hy hn hp
  rcases List.mem_append.mp hy with hy | hy
  · rw [switchLevel_append (hnew y hy).le]
    exact h y hy hn hp
  · obtain rfl := List.mem_singleton.mp hy
    rw [switchLevel_append (Nat.le_refl _)]
    exact he hp

theorem NoneAt.nextAt (h : NoneAt lines p l n) (hn : n < e.line.number) (hp : p e = true)
    (hl : switchLevel lines e.line.number = l) : NextAt (lines ++ [e]) p l n e where
  mem := by simp
  after := hn
  holds := hp
  level := by rw [switchLevel_append (Nat.le_refl _), hl]
  first y hy hn hlt hp := by
    have hy := mem_of_mem_append hy hlt
    rw [switchLevel_append (hnew y hy).le]
    exact h y hy hn hp

end Next

/-! ## Parts of switches -/

/-- The marker of a part of a switch: of a case, or of the default for no pattern. -/
def partMarker : Option String → Marker
  | some pattern => .case pattern
  | none => .default

/-- From line `first` to line `last` the lines are a part of a switch, between its marker and
    the next marker on its level. -/
structure Part (lines : List Entry) (l : Nat) (pattern : Option String) (first last : Nat) :
    Prop where
  begins : ∃ e ∈ lines, e.line.number = first ∧ e.directive = some (.marker (partMarker pattern))
  level : switchLevel lines first = l
  ends : ∃ e, NextAt lines Entry.marksSwitch l first e ∧ last = e.lastOfPart

/-- What the marker of a part is, and is not. -/
theorem Entry.of_partMarker {e : Entry} {pattern : Option String}
    (h : e.directive = some (.marker (partMarker pattern))) :
    e.marksSwitch = true ∧ e.endsSwitch = false ∧ e.lastOfPart = e.line.number - 1 := by
  cases pattern <;>
    simp [marksSwitch, endsSwitch, lastOfPart, h, partMarker, Grouping.endsCase]

namespace Part

variable {lines : List Entry} {l l' : Nat} {pattern pattern' : Option String}
  {first last first' last' : Nat}

theorem first_le_last (h : Part lines l pattern first last) : first ≤ last := by
  obtain ⟨e, hnext, rfl⟩ := h.ends
  exact Entry.le_lastOfPart hnext.after

theorem append {e : Entry} (hnew : ∀ y ∈ lines, y.line.number < e.line.number)
    (h : Part lines l pattern first last) : Part (lines ++ [e]) l pattern first last := by
  obtain ⟨marker, hmem, hfirst, hmarker⟩ := h.begins
  obtain ⟨closer, hnext, hlast⟩ := h.ends
  refine ⟨⟨marker, List.mem_append_left _ hmem, hfirst, hmarker⟩, ?_,
    ⟨closer, hnext.append hnew, hlast⟩⟩
  rw [switchLevel_append (hfirst ▸ (hnew marker hmem).le), h.level]

/-- A marker on the same level that is not an `<end-case>` comes after the part. -/
theorem last_lt (h : Part lines l pattern first last) {x : Entry} (hx : x ∈ lines)
    (hafter : first < x.line.number) (hmarks : x.marksSwitch = true)
    (hlevel : switchLevel lines x.line.number = l) (hlast : x.lastOfPart < x.line.number)
    (hnodup : (lines.map (·.line.number)).Nodup) : last < x.line.number := by
  obtain ⟨closer, hnext, rfl⟩ := h.ends
  rcases (hnext.le hx hafter hmarks hlevel).lt_or_eq with hlt | heq
  · exact (closer.lastOfPart_le).trans_lt hlt
  · obtain rfl := List.inj_on_of_nodup_map hnodup hnext.mem hx heq
    exact hlast

variable (hnodup : (lines.map (·.line.number)).Nodup)
include hnodup

theorem first_ne_end (h : Part lines l pattern first last) {z : Entry} (hz : z ∈ lines)
    (hends : z.endsSwitch = true) : first ≠ z.line.number := by
  intro heq
  obtain ⟨marker, hmem, hnumber, hmarker⟩ := h.begins
  obtain rfl := List.inj_on_of_nodup_map hnodup hmem hz (hnumber.trans heq)
  rw [(Entry.of_partMarker hmarker).2.1] at hends
  cases hends

/-- No line of a part is on a lower level than the part. -/
theorem le_level (h : Part lines l pattern first last) {k : Nat} (hfirst : first ≤ k)
    (hlast : k ≤ last) : l ≤ switchLevel lines k := by
  by_contra hlt
  obtain ⟨closer, hnext, rfl⟩ := h.ends
  obtain ⟨z, hz, hle, hzk, hends, hlevel, -⟩ :=
    exists_first_end hnodup hfirst h.level.ge (by omega)
  have hne := h.first_ne_end hnodup hz hends
  have hcloser := closer.lastOfPart_le
  exact hnext.first z hz (by omega) (by omega) (Entry.marksSwitch_of_endsSwitch hends) hlevel

/-- A line on a lower level is outside of a part. -/
theorem outside (h : Part lines l pattern first last) {n : Nat} (hn : switchLevel lines n < l) :
    n < first ∨ last < n := by
  by_contra hin
  have hle := h.le_level hnodup (k := n) (by omega) (by omega)
  omega

/-- A part that begins in another one ends in it. -/
theorem last_le (h : Part lines l pattern first last) (h' : Part lines l' pattern' first' last')
    (hlt : first < first') (hle : first' ≤ last) : last' ≤ last := by
  obtain ⟨marker', hmem', rfl, hmarker'⟩ := h'.begins
  obtain ⟨hmarks', -, hlast'⟩ := Entry.of_partMarker hmarker'
  have hpos : marker'.lastOfPart < marker'.line.number := by omega
  have hlevel : l ≤ l' := h'.level ▸ h.le_level hnodup hlt.le hle
  have hne : l' ≠ l := by
    rintro rfl
    have hend := h.last_lt hmem' hlt hmarks' h'.level hpos hnodup
    omega
  obtain ⟨closer, hnext, rfl⟩ := h.ends
  obtain ⟨closer', hnext', rfl⟩ := h'.ends
  have hbefore : marker'.line.number < closer.line.number := by
    rcases (hle.trans closer.lastOfPart_le).lt_or_eq with hlt | heq
    · exact hlt
    · obtain rfl := List.inj_on_of_nodup_map hnodup hmem' hnext.mem heq
      omega
  obtain ⟨z, hz, hkz, hzm, hends, hzlevel, -⟩ :=
    exists_first_end hnodup hbefore.le h'.level.ge (by have := hnext.level; omega)
  have hzne := h'.first_ne_end hnodup hz hends
  have hcloser' := hnext'.le hz (by omega) (Entry.marksSwitch_of_endsSwitch hends) hzlevel
  calc closer'.lastOfPart ≤ closer'.line.number := closer'.lastOfPart_le
    _ ≤ z.line.number := hcloser'
    _ ≤ closer.lastOfPart := Entry.le_lastOfPart hzm

end Part

end ConsoleScript
