/-
# `Lib.Text` — text as a list of scalar values, and its splitting into tokens

A Rust `str` is a sequence of Unicode scalar values, which is what a list of
`Char` is.  The functions below are the `str` methods of the standard
library that a line-oriented text protocol is written with: `trim`,
`lines`, `split_whitespace`, `splitn` and `starts_with`.

The point of the module is the last section.  A whitespace-free, nonempty
word is a `Token`; `line ts` writes tokens separated by single blanks and
closed by a newline, and reading it back — one line at a time, one word at
a time — returns exactly the tokens that were written.  Every protocol
whose names come out of `split_whitespace` gets its round trip from there.
-/
import Mathlib.Data.List.DropRight

namespace NatPiercer

/-- A Rust `str`. -/
abbrev Str := List Char

namespace Text

/-! ## Whitespace, trimming, prefixes -/

/-- `char::is_whitespace`: the Unicode property `White_Space`. -/
def isWhitespace (c : Char) : Bool :=
  let n := c.toNat
  (0x9 ≤ n && n ≤ 0xD) || n == 0x20 || n == 0x85 || n == 0xA0 || n == 0x1680 ||
    (0x2000 ≤ n && n ≤ 0x200A) || n == 0x2028 || n == 0x2029 || n == 0x202F ||
    n == 0x205F || n == 0x3000

/-- `str::trim_start`. -/
def trimStart (s : Str) : Str := s.dropWhile isWhitespace

/-- `str::trim`. -/
def trim (s : Str) : Str := (trimStart s).rdropWhile isWhitespace

/-- `str::starts_with`, for a string pattern. -/
def startsWith (s pre : Str) : Bool := pre.isPrefixOf s

/-- `str::splitn` at a single character: at most `n` pieces, the last one
holding whatever is left. -/
def splitn : Nat → Char → Str → List Str
  | 0, _, _ => []
  | 1, _, s => [s]
  | n + 2, sep, s =>
      match s.dropWhile (· != sep) with
      | [] => [s]
      | _ :: rest => s.takeWhile (· != sep) :: splitn (n + 1) sep rest

/-- The carriage return that `str::lines` drops together with a newline. -/
def stripCr (s : Str) : Str :=
  if s.getLast? = some '\r' then s.dropLast else s

/-- `str::lines`: the pieces between newlines; a last piece without a newline
counts when it is nonempty, and keeps a carriage return at its end. -/
def lines (s : Str) : List Str :=
  let pieces := s.splitOnP (· == '\n')
  pieces.dropLast.map stripCr ++ (pieces.getLast?.toList).filter (· ≠ [])

/-! ## Tokens -/

/-- Nonempty, and without whitespace. -/
def isWord (s : Str) : Bool := !s.isEmpty && s.all fun c => !isWhitespace c

theorem isWord_iff {s : Str} : isWord s = true ↔ s ≠ [] ∧ ∀ c ∈ s, isWhitespace c = false := by
  simp [isWord]

/-- A nonempty word without whitespace: what `split_whitespace` yields. -/
structure Token where
  text : Str
  word : isWord text = true
deriving DecidableEq

theorem Token.solid (t : Token) : t.text ≠ [] ∧ ∀ c ∈ t.text, isWhitespace c = false :=
  isWord_iff.mp t.word

@[ext] theorem Token.ext {a b : Token} (h : a.text = b.text) : a = b := by
  cases a; cases b; cases h; rfl

/-- A word as a token, when it is one. -/
def Token.ofStr? (w : Str) : Option Token :=
  if h : isWord w = true then some ⟨w, h⟩ else none

@[simp] theorem Token.ofStr?_text (t : Token) : Token.ofStr? t.text = some t := by
  exact dif_pos t.word

@[simp] theorem Token.ofStr?_nil : Token.ofStr? [] = none := rfl

/-- `str::split_whitespace`: the nonempty pieces between whitespace. -/
def splitWhitespace (s : Str) : List Token :=
  (s.splitOnP isWhitespace).filterMap Token.ofStr?

/-- The pieces of a split hold no separator. -/
theorem not_sep_of_mem_splitOnP {α : Type} {p : α → Bool} :
    ∀ {s w : List α}, w ∈ s.splitOnP p → ∀ c ∈ w, p c = false
  | [], w, hw, c, hc => by
      rw [List.splitOnP_nil, List.mem_singleton] at hw
      subst hw
      exact absurd hc List.not_mem_nil
  | a :: s, w, hw, c, hc => by
      rw [List.splitOnP_cons_eq_if_modifyHead] at hw
      obtain ⟨x, xs, hx⟩ := List.exists_cons_of_ne_nil (List.splitOnP_ne_nil p s)
      have ih : ∀ v ∈ x :: xs, ∀ d ∈ v, p d = false := by
        intro v hv
        exact not_sep_of_mem_splitOnP (hx ▸ hv)
      cases ha : p a with
      | true =>
          rw [ha, if_pos rfl, hx] at hw
          rcases List.mem_cons.mp hw with rfl | hw
          · exact absurd hc List.not_mem_nil
          · exact ih w hw c hc
      | false =>
          rw [ha, if_neg (by decide), hx, List.modifyHead_cons] at hw
          rcases List.mem_cons.mp hw with rfl | hw
          · rcases List.mem_cons.mp hc with rfl | hc
            · exact ha
            · exact ih x List.mem_cons_self c hc
          · exact ih w (List.mem_cons_of_mem _ hw) c hc

/-- The tokens are exactly the nonempty pieces: no piece is lost by being
read as a token. -/
theorem map_text_splitWhitespace (s : Str) :
    (splitWhitespace s).map Token.text = (s.splitOnP isWhitespace).filter (· ≠ []) := by
  have key : ∀ ws : List Str, (∀ w ∈ ws, ∀ c ∈ w, isWhitespace c = false) →
      (ws.filterMap Token.ofStr?).map Token.text = ws.filter (· ≠ []) := by
    intro ws hws
    induction ws with
    | nil => rfl
    | cons w ws ih =>
        have ih := ih (fun v hv => hws v (List.mem_cons_of_mem _ hv))
        by_cases hw : w = []
        · subst hw
          rw [List.filterMap_cons_none Token.ofStr?_nil, ih]
          rfl
        · have hword : isWord w = true := isWord_iff.mpr ⟨hw, hws w List.mem_cons_self⟩
          have hof : Token.ofStr? w = some ⟨w, hword⟩ := dif_pos hword
          simp [hof, hw, ih]
  exact key _ (fun w hw => not_sep_of_mem_splitOnP hw)

@[simp] theorem splitWhitespace_nil : splitWhitespace [] = [] := rfl

/-- A whitespace character separates what stands before it from what follows. -/
theorem splitWhitespace_append_cons (x y : Str) {c : Char} (hc : isWhitespace c = true) :
    splitWhitespace (x ++ c :: y) = splitWhitespace x ++ splitWhitespace y := by
  simp only [splitWhitespace]
  rw [List.splitOnP_append_cons x y hc, List.filterMap_append]

theorem splitWhitespace_cons (y : Str) {c : Char} (hc : isWhitespace c = true) :
    splitWhitespace (c :: y) = splitWhitespace y :=
  splitWhitespace_append_cons [] y hc

@[simp] theorem splitWhitespace_text (t : Token) : splitWhitespace t.text = [t] := by
  simp only [splitWhitespace]
  rw [List.splitOnP_eq_singleton t.solid.2]
  simp

theorem splitWhitespace_append_singleton (x : Str) {c : Char} (hc : isWhitespace c = true) :
    splitWhitespace (x ++ [c]) = splitWhitespace x := by
  rw [splitWhitespace_append_cons x [] hc, splitWhitespace_nil, List.append_nil]

theorem splitWhitespace_trimStart (s : Str) :
    splitWhitespace (trimStart s) = splitWhitespace s := by
  induction s with
  | nil => rfl
  | cons c s ih =>
      cases hc : isWhitespace c with
      | true => rw [splitWhitespace_cons s hc, ← ih, trimStart, List.dropWhile_cons_of_pos hc]; rfl
      | false => rw [trimStart, List.dropWhile_cons_of_neg (by simp [hc])]

theorem splitWhitespace_rdropWhile (s : Str) :
    splitWhitespace (s.rdropWhile isWhitespace) = splitWhitespace s := by
  induction s using List.reverseRecOn with
  | nil => rfl
  | append_singleton s c ih =>
      cases hc : isWhitespace c with
      | true =>
          rw [List.rdropWhile_concat_pos _ _ _ hc, ih, splitWhitespace_append_singleton s hc]
      | false => rw [List.rdropWhile_concat_neg _ _ _ (by simp [hc])]

/-- Trimming first changes no token. -/
@[simp] theorem splitWhitespace_trim (s : Str) :
    splitWhitespace (trim s) = splitWhitespace s := by
  rw [trim, splitWhitespace_rdropWhile, splitWhitespace_trimStart]

/-- A text that comes down to one token. -/
theorem splitWhitespace_of_trim {s : Str} {t : Token} (h : trim s = t.text) :
    splitWhitespace s = [t] := by
  rw [← splitWhitespace_trim, h, splitWhitespace_text]

/-! ## Writing tokens on a line, and reading them back -/

/-- Tokens separated by single blanks: `format!("{} {} …")`. -/
def unwords : List Token → Str
  | [] => []
  | t :: ts => t.text ++ ts.flatMap (fun u => ' ' :: u.text)

/-- A line of text: tokens, then a newline. -/
def line (ts : List Token) : Str := unwords ts ++ ['\n']

theorem splitWhitespace_flatMap (ts : List Token) :
    splitWhitespace (ts.flatMap fun u => ' ' :: u.text) = ts := by
  induction ts with
  | nil => rfl
  | cons t ts ih =>
      cases ts with
      | nil =>
          rw [List.flatMap_cons, List.flatMap_nil, List.append_nil,
            splitWhitespace_cons _ (by decide), splitWhitespace_text]
      | cons u us =>
          rw [List.flatMap_cons, List.cons_append, splitWhitespace_cons _ (by decide)]
          have hsplit := splitWhitespace_append_cons t.text
            (u.text ++ us.flatMap fun u => ' ' :: u.text) (c := ' ') (by decide)
          rw [List.flatMap_cons, List.cons_append, hsplit, splitWhitespace_text,
            ← splitWhitespace_cons (c := ' ') _ (by decide)]
          rw [List.flatMap_cons, List.cons_append] at ih
          rw [ih]
          rfl

@[simp] theorem splitWhitespace_unwords (ts : List Token) :
    splitWhitespace (unwords ts) = ts := by
  cases ts with
  | nil => rfl
  | cons t ts =>
      rw [unwords, ← splitWhitespace_cons (c := ' ') _ (by decide), ← List.cons_append]
      exact splitWhitespace_flatMap (t :: ts)

@[simp] theorem splitWhitespace_line (ts : List Token) :
    splitWhitespace (line ts) = ts := by
  rw [line, splitWhitespace_append_singleton _ (by decide), splitWhitespace_unwords]

/-- A character of written tokens is a blank or belongs to a token. -/
theorem mem_unwords {ts : List Token} {c : Char} (h : c ∈ unwords ts) :
    c = ' ' ∨ isWhitespace c = false := by
  cases ts with
  | nil => exact absurd h List.not_mem_nil
  | cons t ts =>
      rcases List.mem_append.mp h with h | h
      · exact Or.inr (t.solid.2 c h)
      · obtain ⟨u, -, hu⟩ := List.mem_flatMap.mp h
        rcases List.mem_cons.mp hu with rfl | hu
        · exact Or.inl rfl
        · exact Or.inr (u.solid.2 c hu)

theorem newline_not_mem_unwords (ts : List Token) : '\n' ∉ unwords ts := fun h =>
  (mem_unwords h).elim (by decide) (by decide)

theorem cr_not_mem_unwords (ts : List Token) : '\r' ∉ unwords ts := fun h =>
  (mem_unwords h).elim (by decide) (by decide)

/-- Written tokens start with no whitespace … -/
theorem trimStart_unwords (ts : List Token) : trimStart (unwords ts) = unwords ts := by
  cases ts with
  | nil => rfl
  | cons t ts =>
      obtain ⟨c, cs, hc⟩ := List.exists_cons_of_ne_nil t.solid.1
      have hsolid : isWhitespace c = false := t.solid.2 c (hc ▸ List.mem_cons_self)
      rw [trimStart, unwords, hc, List.cons_append,
        List.dropWhile_cons_of_neg (by simp [hsolid])]

/-- … and end with none. -/
theorem rdropWhile_unwords (ts : List Token) :
    (unwords ts).rdropWhile isWhitespace = unwords ts := by
  have key : ∀ (t : Token) (pre : Str),
      (pre ++ t.text).rdropWhile isWhitespace = pre ++ t.text := by
    intro t pre
    have hne : pre ++ t.text ≠ [] := List.append_ne_nil_of_right_ne_nil _ t.solid.1
    refine List.rdropWhile_eq_self_iff.mpr (fun _ => ?_)
    rw [List.getLast_append_of_ne_nil hne t.solid.1,
      t.solid.2 _ (List.getLast_mem t.solid.1)]
    decide
  cases ts with
  | nil => rfl
  | cons t ts =>
      rcases List.eq_nil_or_concat ts with rfl | ⟨us, u, rfl⟩
      · simpa [unwords] using key t []
      · have := key u (t.text ++ us.flatMap (fun u => ' ' :: u.text) ++ [' '])
        simpa [unwords] using this

@[simp] theorem trim_unwords (ts : List Token) : trim (unwords ts) = unwords ts := by
  rw [trim, trimStart_unwords, rdropWhile_unwords]

/-- Nothing is trimmed between two texts that are trimmed on the outside. -/
theorem trim_append {x y : Str} (hx : trimStart x = x) (hne : x ≠ [])
    (hy : y.rdropWhile isWhitespace = y) (hne' : y ≠ []) : trim (x ++ y) = x ++ y := by
  have hstart : trimStart (x ++ y) = x ++ y := by
    cases x with
    | nil => exact absurd rfl hne
    | cons c x =>
        have hc : ¬ isWhitespace c = true := by
          have hhead := List.dropWhile_eq_self_iff.mp hx (Nat.zero_lt_succ _)
          exact hhead
        exact List.dropWhile_cons_of_neg hc
  rw [trim, hstart, List.rdropWhile_eq_self_iff]
  intro hl
  rw [List.getLast_append_of_ne_nil hl hne']
  exact List.rdropWhile_eq_self_iff.mp hy hne'

/-- A text that is not blank starts, trimmed, with something else than a blank. -/
theorem exists_cons_of_trim {s : Str} (h : trim s ≠ []) :
    ∃ c rest, trim s = c :: rest ∧ isWhitespace c = false := by
  obtain ⟨c, rest, hcons⟩ := List.exists_cons_of_ne_nil h
  refine ⟨c, rest, hcons, ?_⟩
  obtain ⟨t, ht⟩ := List.rdropWhile_prefix isWhitespace (trimStart s)
  have hstart : trimStart s = c :: (rest ++ t) := by
    rw [← ht, ← List.cons_append, ← hcons]
    rfl
  by_contra hc
  have hdrop := List.dropWhile_cons_of_pos (p := isWhitespace) (l := rest ++ t)
    (a := c) (by simpa using hc)
  rw [← hstart, trimStart, List.dropWhile_idempotent] at hdrop
  have hlen := (List.dropWhile_sublist (p := isWhitespace) (l := rest ++ t)).length_le
  rw [← hdrop, ← trimStart, hstart, List.length_cons] at hlen
  omega

/-- A text that starts with no blank starts with its first word. -/
theorem exists_splitWhitespace_cons {c : Char} (s : Str) (hc : isWhitespace c = false) :
    ∃ t ts, splitWhitespace (c :: s) = t :: ts ∧ t.text.head? = some c := by
  have hmap := map_text_splitWhitespace (c :: s)
  obtain ⟨w, ws, hw⟩ := List.exists_cons_of_ne_nil (List.splitOnP_ne_nil isWhitespace s)
  rw [List.splitOnP_cons_eq_if_modifyHead, hc, if_neg Bool.false_ne_true, hw,
    List.modifyHead_cons, List.filter_cons_of_pos (by simp)] at hmap
  obtain ⟨t, ts, hts, ht, -⟩ := List.map_eq_cons_iff.mp hmap
  exact ⟨t, ts, hts, by rw [ht, List.head?_cons]⟩

theorem splitWhitespace_ne_nil {c : Char} (s : Str) (hc : isWhitespace c = false) :
    splitWhitespace (c :: s) ≠ [] := by
  obtain ⟨t, ts, hts, -⟩ := exists_splitWhitespace_cons s hc
  rw [hts]
  exact List.cons_ne_nil t ts

/-- A piece ends at the first separator. -/
theorem splitn_append_cons {w : Str} {sep : Char} (n : Nat) (rest : Str) (hw : sep ∉ w) :
    splitn (n + 2) sep (w ++ sep :: rest) = w :: splitn (n + 1) sep rest := by
  have hall : ∀ c ∈ w, (c != sep) = true := fun c hc => by
    rw [bne_iff_ne]
    rintro rfl
    exact hw hc
  have hdrop : (w ++ sep :: rest).dropWhile (· != sep) = sep :: rest := by
    rw [List.dropWhile_append_of_pos hall, List.dropWhile_cons_of_neg (by simp)]
  have htake : (w ++ sep :: rest).takeWhile (· != sep) = w := by
    rw [List.takeWhile_append_of_pos hall, List.takeWhile_cons_of_neg (by simp), List.append_nil]
  rw [splitn, hdrop, htake]

theorem length_splitn_le (sep : Char) : ∀ (n : Nat) (s : Str), (splitn n sep s).length ≤ n
  | 0, _ => Nat.le_refl 0
  | 1, _ => Nat.le_refl 1
  | n + 2, s => by
      rw [splitn]
      split
      · exact Nat.le_add_left 1 (n + 1)
      · exact Nat.succ_le_succ (length_splitn_le sep (n + 1) _)

theorem stripCr_of_not_mem {s : Str} (h : '\r' ∉ s) : stripCr s = s :=
  if_neg (fun hl => h (List.mem_of_getLast? hl))

@[simp] theorem lines_nil : lines [] = [] := rfl

/-- The first line ends at the first newline. -/
theorem lines_append_newline {x : Str} (y : Str) (hx : '\n' ∉ x) :
    lines (x ++ '\n' :: y) = stripCr x :: lines y := by
  have hsplit : (x ++ '\n' :: y).splitOnP (· == '\n') = x :: y.splitOnP (· == '\n') :=
    List.splitOnP_append_cons_of_forall_mem
      (fun c hc => by simpa using fun h : c = '\n' => hx (h ▸ hc)) '\n' (by decide) y
  obtain ⟨w, ws, hw⟩ := List.exists_cons_of_ne_nil (List.splitOnP_ne_nil (· == '\n') y)
  simp [lines, hsplit, hw]

/-- A text without a newline is one line, or none when it is empty. -/
theorem lines_of_not_mem {x : Str} (hx : '\n' ∉ x) (hne : x ≠ []) : lines x = [x] := by
  have hsplit : x.splitOnP (· == '\n') = [x] :=
    List.splitOnP_eq_singleton (fun c hc => by simpa using fun h : c = '\n' => hx (h ▸ hc))
  simp [lines, hsplit, hne]

/-- Lines written one after the other are read one after the other. -/
@[simp] theorem lines_flatMap_line (tss : List (List Token)) :
    lines (tss.flatMap line) = tss.map unwords := by
  induction tss with
  | nil => rfl
  | cons ts tss ih =>
      rw [List.flatMap_cons, line, List.append_assoc, List.singleton_append,
        lines_append_newline _ (newline_not_mem_unwords ts), ih, List.map_cons,
        stripCr_of_not_mem (cr_not_mem_unwords ts)]

@[simp] theorem lines_line (ts : List Token) : lines (line ts) = [unwords ts] := by
  simpa using lines_flatMap_line [ts]

end Text

end NatPiercer
