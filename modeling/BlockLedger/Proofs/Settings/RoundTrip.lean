import BlockLedger.Proofs.Json.Written
import BlockLedger.Settings
import Mathlib.Data.List.TakeDrop
import Mathlib.Data.List.TakeWhile
import Mathlib.Tactic.SplitIfs

/-!
# Reading the settings of a new node

A new node is given settings with a limit of its own and the standard journal. The text that is
written for them has a header and a pair for each of the two, and these are the lines that are read
(`Settings.lines_render`). All of them are fixed but the limit. A number without a sign is a word of
digits, which is neither a point in time nor a number with a fraction (`Toml.scalar_digits`), so the
settings are read back with the same limit if it fits 63 bits (`Settings.parse_render`). A larger
one is never written.
-/

namespace BlockLedger

namespace Toml

variable {α β : Type}

theorem bind_of_some {r : Reader α} {f : α → Reader β} {cs rest : List Char} {a : α}
    (h : r cs = some (a, rest)) : (r >>= f) cs = f a rest := by
  change ((r cs).bind fun p => f p.1 p.2) = f a rest
  rw [h]
  rfl

/-! ### Words of digits -/

section Digits

variable {ds : List Char} (hds : ∀ d ∈ ds, d.isDigit = true)

include hds

/-- No other character is taken from digits. -/
theorem takeCharacter_digits {c : Char} (hc : c.isDigit = false) : takeCharacter c ds = none := by
  cases ds with
  | nil => rfl
  | cons d ds =>
    refine if_neg ?_
    rintro rfl
    rw [hds d List.mem_cons_self] at hc
    cases hc

/-- **A field of so many digits with a separator behind it** is not read from digits, whatever is to
follow the separator. -/
theorem field_digits {c : Char} (hc : c.isDigit = false) (n : Nat)
    {f : Nat × List Char → Option α} (hf : ∀ v, ∃ g, f v = (takeCharacter c v.2).bind g) :
    (fixedDigits n ds).bind f = none := by
  rw [fixedDigits]
  split_ifs
  · obtain ⟨g, hg⟩ := hf (valueIn 10 (ds.take n), ds.drop n)
    rw [Option.bind_some, hg,
      takeCharacter_digits (fun d hd => hds d (List.mem_of_mem_drop hd)) hc]
    rfl
  · rfl

/-- Digits are no date. -/
theorem date?_digits : date? ds = none :=
  field_digits hds (c := '-') rfl 4 fun _ => ⟨_, rfl⟩

/-- Digits are no time of day. -/
theorem time?_digits : time? ds = none :=
  field_digits hds (c := ':') rfl 2 fun _ => ⟨_, rfl⟩

/-- There is no sign in front of digits. -/
theorem splitSign_digits : splitSign ds = (false, ds) := by
  rw [splitSign.eq_def]
  split
  · exact absurd (hds '-' List.mem_cons_self) (by decide)
  · exact absurd (hds '+' List.mem_cons_self) (by decide)
  · rfl

/-- All digits stand before a character that is none. -/
theorem span_digits {p : Char → Bool} (hp : ∀ d, d.isDigit = true → p d = true) (rest : List Char)
    (hrest : ∀ c ∈ rest.head?, p c = false) : (ds ++ rest).span p = (ds, rest) := by
  have hall : ∀ d ∈ ds, p d = true := fun d hd => hp d (hds d hd)
  have hend : rest.takeWhile p = [] ∧ rest.dropWhile p = rest := by
    cases rest with
    | nil => exact ⟨rfl, rfl⟩
    | cons c rest =>
      rw [List.takeWhile_cons, List.dropWhile_cons, hrest c rfl]
      exact ⟨rfl, rfl⟩
  rw [List.span_eq_takeWhile_dropWhile, List.takeWhile_append_of_pos hall,
    List.dropWhile_append_of_pos hall, hend.1, hend.2, List.append_nil]

/-- Digits are no word of letters. -/
theorem ofList_digits_ne {c : Char} (hc : c.isDigit = false) (cs : List Char) : ds ≠ c :: cs := by
  rintro rfl
  rw [hds c List.mem_cons_self] at hc
  cases hc

/-- Digits are no number with a fraction or an exponent. -/
theorem isFloat_digits : isFloat ds = false := by
  have hletters : ∀ c cs, c.isDigit = false → String.ofList ds ≠ String.ofList (c :: cs) := by
    intro c cs hc heq
    exact ofList_digits_ne hds hc cs (String.ofList_injective heq)
  -- there is neither an exponent nor a point, so nothing is left for either
  have hexponent : splitExponent ds = (ds, []) := by
    have hspan := span_digits hds (p := fun c => c ≠ 'e' && c ≠ 'E') ?_ [] nofun
    · rwa [List.append_nil] at hspan
    · intro d hd
      rw [Bool.and_eq_true, decide_eq_true_iff, decide_eq_true_iff]
      constructor <;> rintro rfl <;> exact absurd hd (by decide)
  have hwhole : ds.span (· ≠ '.') = (ds, []) := by
    have hspan := span_digits hds (p := fun c => c ≠ '.') ?_ [] nofun
    · rwa [List.append_nil] at hspan
    · intro d hd
      rw [decide_eq_true_iff]
      rintro rfl
      exact absurd hd (by decide)
  have hdecimal : isDecimalFloat ds = false := by
    rw [isDecimalFloat, splitSign_digits hds]
    simp only [hexponent, hwhole]
    split
    · rfl
    · rfl
  rw [isFloat, splitSign_digits hds, hdecimal]
  simp only [Bool.or_false, Bool.or_eq_false_iff, decide_eq_false_iff_not]
  exact ⟨hletters 'i' ['n', 'f'] rfl, hletters 'n' ['a', 'n'] rfl⟩

/-- Digits have no underscores between them. -/
theorem ungroup_digits (hne : ds ≠ []) : ungroup Char.isDigit ds = some ds := by
  induction ds with
  | nil => exact absurd rfl hne
  | cons d ds ih =>
    obtain ⟨hd, hall⟩ := List.forall_mem_cons.1 hds
    rw [ungroup.eq_def]
    split
    · next heq => cases heq
    · next heq =>
      cases heq
      rw [if_pos hd]
    · next heq =>
      cases heq
      exact absurd (hall '_' List.mem_cons_self) (by decide)
    · next hsingle _ heq =>
      cases heq
      have hrest : ds ≠ [] := fun hnil => hsingle hnil
      rw [if_pos hd, ih hall hrest, Option.map_some]

/-- The number that digits write. -/
theorem valueIn_digits : valueIn 10 ds = Nat.ofDigitChars 10 ds 0 := by
  refine List.foldl_ext _ _ 0 fun n d hd => ?_
  rw [digitValue, if_pos (hds d hd)]
  rfl

end Digits

/-- **A number is read from its digits**, if it fits 63 bits. -/
theorem integer?_toDigits {n : Nat} (hn : n < signedLimit) :
    integer? (Nat.toDigits 10 n) = some (n : Int) := by
  have hds : ∀ d ∈ Nat.toDigits 10 n, d.isDigit = true := fun d hd =>
    Nat.isDigit_of_mem_toDigits (by decide) (by decide) hd
  have hvalue : valueIn 10 (Nat.toDigits 10 n) = n := by
    rw [valueIn_digits hds]
    exact Nat.ofDigitChars_toDigits (by decide) (by decide)
  have hdecimal : decimalDigits (Nat.toDigits 10 n) = some (Nat.toDigits 10 n) := by
    rw [decimalDigits, ungroup_digits hds Nat.toDigits_ne_nil]
    split
    · next heq => exact absurd (Option.some.inj heq) (Json.Reader.toDigits_ne_zero_cons n _ _)
    · rfl
  rw [integer?.eq_def]
  split
  -- in another base a letter comes behind the zero, and here nothing does
  · next heq => exact absurd heq (Json.Reader.toDigits_ne_zero_cons n _ _)
  · next heq => exact absurd heq (Json.Reader.toDigits_ne_zero_cons n _ _)
  · next heq => exact absurd heq (Json.Reader.toDigits_ne_zero_cons n _ _)
  · rw [splitSign_digits hds]
    simp only [hdecimal]
    change fitting false (valueIn 10 (Nat.toDigits 10 n)) = some (n : Int)
    rw [hvalue, fitting, if_neg Bool.false_ne_true, if_pos hn]

/-- **A word of digits** is read as a number, up to the end of the line. -/
theorem scalar_digits {n : Nat} (hn : n < signedLimit) (rest : List Char) :
    scalar (Nat.toDigits 10 n ++ '\n' :: rest) = some (.integer n, '\n' :: rest) := by
  have hds : ∀ d ∈ Nat.toDigits 10 n, d.isDigit = true := fun d hd =>
    Nat.isDigit_of_mem_toDigits (by decide) (by decide) hd
  have hword : word (Nat.toDigits 10 n ++ '\n' :: rest) =
      some (Nat.toDigits 10 n, '\n' :: rest) := by
    refine congrArg some (span_digits hds (fun d hd => ?_) _ fun c hc => ?_)
    · rw [isWordCharacter, Char.isAlphanum, hd]
      simp
    · cases hc
      rfl
  have htime : isTime (Nat.toDigits 10 n) = false := by
    rw [isTime, time?_digits hds, date?_digits hds]
    rfl
  have hdate : isDate (Nat.toDigits 10 n) = false := by
    rw [isDate, date?_digits hds]
    rfl
  -- all that a word can be besides a number is ruled out
  rw [scalar, bind_of_some hword]
  simp only [ofList_digits_ne hds (c := 't') rfl, ofList_digits_ne hds (c := 'f') rfl, hdate, htime,
    isFloat_digits hds, integer?_toDigits hn, decide_false, Bool.or_false, Bool.false_eq_true,
    if_false]
  rfl

/-- A value that begins with a digit is a word. -/
theorem value_of_digit {d : Char} (hd : d.isDigit = true) (cs : List Char) (n : Nat) :
    value (n + 1) (d :: cs) = scalar (d :: cs) := by
  have hne : ∀ c : Char, c.isDigit = false → d ≠ c := by
    rintro c hc rfl
    rw [hd] at hc
    cases hc
  have hget : (get : Reader (List Char)) (d :: cs) = some (d :: cs, d :: cs) := rfl
  have hplain : plainValue (d :: cs) = scalar (d :: cs) := by
    rw [plainValue, bind_of_some hget]
    simp only [hne '"' rfl, hne '\'' rfl, decide_false, Bool.or_false, Bool.false_eq_true, if_false]
  rw [value, bind_of_some hget]
  -- the cases are told apart by the first character, which is not known
  generalize hall : d :: cs = all at hplain ⊢
  split
  · exact absurd (List.cons.inj hall).1 (hne '[' rfl)
  · exact absurd (List.cons.inj hall).1 (hne '\x7b' rfl)
  · exact hplain

/-! ### Lines -/

theorem restOfLine_feed (rest : List Char) : restOfLine ('\n' :: rest) = some ((), rest) := rfl

/-- A line with a header. -/
theorem line_header {cs rest : List Char} {h : Header} (hh : header cs = some (h, '\n' :: rest)) :
    line ('[' :: cs) = some (some (.header h), rest) := by
  have hskip : skipSpaces ('[' :: cs) = some ((), '[' :: cs) := rfl
  have hget : (get : Reader (List Char)) ('[' :: cs) = some ('[' :: cs, '[' :: cs) := rfl
  have hset : (set cs : Reader PUnit) ('[' :: cs) = some ((), cs) := rfl
  rw [line, bind_of_some hskip, bind_of_some hget]
  simp only
  rw [bind_of_some hset, bind_of_some hh, bind_of_some (restOfLine_feed rest)]
  rfl

/-- A line with a key, which begins with a letter, and a value. -/
theorem line_pair {c : Char} {cs rest : List Char} {p : Pair} (hc : c.isAlpha = true)
    (hp : pair (value depthLimit) (c :: cs) = some (p, '\n' :: rest)) :
    line (c :: cs) = some (some (.pair p), rest) := by
  have hne : ∀ d : Char, d.isAlpha = false → c ≠ d := by
    rintro d hd rfl
    rw [hc] at hd
    cases hd
  have hspace : isSpace c = false := by
    rw [isSpace, Bool.or_eq_false_iff, decide_eq_false_iff_not, decide_eq_false_iff_not]
    exact ⟨hne ' ' rfl, hne '\t' rfl⟩
  have hskip : skipSpaces (c :: cs) = some ((), c :: cs) := by
    change some ((), (c :: cs).dropWhile isSpace) = _
    rw [List.dropWhile_cons, hspace]
    rfl
  have hget : (get : Reader (List Char)) (c :: cs) = some (c :: cs, c :: cs) := rfl
  rw [line, bind_of_some hskip, bind_of_some hget]
  generalize hall : c :: cs = all at hp ⊢
  split
  · cases hall
  · exact absurd (List.cons.inj hall).1 (hne '#' rfl)
  · exact absurd (List.cons.inj hall).1 (hne '\n' rfl)
  · exact absurd (List.cons.inj hall).1 (hne '\r' rfl)
  · exact absurd (List.cons.inj hall).1 (hne '[' rfl)
  · rw [bind_of_some hp, bind_of_some (restOfLine_feed rest)]
    rfl

/-- A line that says something, and the lines behind it. -/
theorem lines_of_line {n : Nat} {c : Char} {cs rest : List Char} {l : Line} {ls : List Line}
    (hl : line (c :: cs) = some (some l, rest)) (hls : lines n rest = some (ls, [])) :
    lines (n + 1) (c :: cs) = some (l :: ls, []) := by
  have hget : (get : Reader (List Char)) (c :: cs) = some (c :: cs, c :: cs) := rfl
  rw [lines, bind_of_some hget]
  simp only [List.isEmpty_cons, Bool.false_eq_true, if_false]
  refine (bind_of_some hl).trans ?_
  exact (bind_of_some hls).trans rfl

/-- A line that says nothing. -/
theorem lines_of_feed (n : Nat) (rest : List Char) : lines (n + 1) ('\n' :: rest) = lines n rest := by
  have hget : (get : Reader (List Char)) ('\n' :: rest) = some ('\n' :: rest, '\n' :: rest) := rfl
  have hline : line ('\n' :: rest) = some (none, rest) := rfl
  rw [lines, bind_of_some hget]
  simp only [List.isEmpty_cons, Bool.false_eq_true, if_false]
  exact bind_of_some hline

end Toml

/-! ### Settings -/

namespace Settings

open Toml

/-- The settings of a new node. -/
def ofLimit (limit : Nat) : Settings := { standard with limit }

/-- The lines of the settings of a new node. -/
def linesOf (limit : Nat) : List Line := [
  .header ⟨[], "server", false⟩, .pair ⟨[], "max_proof_leaves", .integer limit⟩,
  .header ⟨[], "journal", false⟩, .pair ⟨[], "path", .text "blocks.jsonl"⟩]

/-- The text of the settings of a new node, line by line. -/
theorem toList_render (limit : Nat) :
    (ofLimit limit).render.toList =
      "[server]\n".toList ++ ("max_proof_leaves = ".toList ++ (Nat.toDigits 10 limit ++
        '\n' :: '\n' :: ("[journal]\n".toList ++ "path = \"blocks.jsonl\"\n".toList))) := by
  have hrender : (ofLimit limit).render = "[server]\nmax_proof_leaves = " ++ toString limit ++
      "\n\n[journal]\npath = " ++ Toml.quoted "blocks.jsonl" ++ "\n" := rfl
  have hlimit : (toString limit).toList = Nat.toDigits 10 limit := Nat.toList_repr
  have hquoted : Toml.quoted "blocks.jsonl" = "\"blocks.jsonl\"" := rfl
  rw [hrender, hquoted]
  simp only [String.toList_append, hlimit, List.append_assoc]
  rfl

theorem render_ne_empty (limit : Nat) : (ofLimit limit).render ≠ "" := by
  intro hempty
  have hlines := toList_render limit
  rw [hempty] at hlines
  cases hlines

/-- The header of the table that holds the limit. -/
theorem line_server (rest : List Char) :
    line ("[server]\n".toList ++ rest) = some (some (.header ⟨[], "server", false⟩), rest) := by
  have hheader : header ("server]\n".toList ++ rest) = some (⟨[], "server", false⟩, '\n' :: rest) := rfl
  exact line_header hheader

/-- The header of the table that holds the path of the journal. -/
theorem line_journal (rest : List Char) :
    line ("[journal]\n".toList ++ rest) = some (some (.header ⟨[], "journal", false⟩), rest) := by
  have hheader : header ("journal]\n".toList ++ rest) =
      some (⟨[], "journal", false⟩, '\n' :: rest) := rfl
  exact line_header hheader

/-- The path of the journal. -/
theorem line_path : line "path = \"blocks.jsonl\"\n".toList =
    some (some (.pair ⟨[], "path", .text "blocks.jsonl"⟩), []) := by
  have hkey : dottedKey "path = \"blocks.jsonl\"\n".toList =
      some (([], "path"), "= \"blocks.jsonl\"\n".toList) := rfl
  have hexpect : expect '=' "= \"blocks.jsonl\"\n".toList =
      some ((), " \"blocks.jsonl\"\n".toList) := rfl
  have hskip : skipSpaces " \"blocks.jsonl\"\n".toList =
      some ((), "\"blocks.jsonl\"\n".toList) := rfl
  have hvalue : value depthLimit "\"blocks.jsonl\"\n".toList =
      some (.text "blocks.jsonl", ['\n']) := rfl
  have hpair : pair (value depthLimit) "path = \"blocks.jsonl\"\n".toList =
      some (⟨[], "path", .text "blocks.jsonl"⟩, ['\n']) := by
    rw [pair, bind_of_some hkey]
    simp only
    rw [bind_of_some hexpect, bind_of_some hskip, bind_of_some hvalue]
    rfl
  exact line_pair (c := 'p') rfl hpair

/-- **The limit.** -/
theorem line_limit {limit : Nat} (hlimit : limit < signedLimit) (rest : List Char) :
    line ("max_proof_leaves = ".toList ++ (Nat.toDigits 10 limit ++ '\n' :: rest)) =
      some (some (.pair ⟨[], "max_proof_leaves", .integer limit⟩), rest) := by
  obtain ⟨d, ds, hds⟩ := List.exists_cons_of_ne_nil (Nat.toDigits_ne_nil (n := limit) (b := 10))
  have hd : d.isDigit = true :=
    Nat.isDigit_of_mem_toDigits (b := 10) (n := limit) (by decide) (by decide)
      (by rw [hds]; exact List.mem_cons_self)
  have hscalar := scalar_digits hlimit rest
  rw [hds, List.cons_append] at hscalar ⊢
  -- what is left of the line behind each of its parts
  have hkey : dottedKey ("max_proof_leaves = ".toList ++ d :: (ds ++ '\n' :: rest)) =
      some (([], "max_proof_leaves"), '=' :: ' ' :: d :: (ds ++ '\n' :: rest)) := rfl
  have hexpect : expect '=' ('=' :: ' ' :: d :: (ds ++ '\n' :: rest)) =
      some ((), ' ' :: d :: (ds ++ '\n' :: rest)) := rfl
  have hskip : skipSpaces (' ' :: d :: (ds ++ '\n' :: rest)) =
      some ((), d :: (ds ++ '\n' :: rest)) := by
    have hspace : isSpace d = false := by
      rw [isSpace, Bool.or_eq_false_iff, decide_eq_false_iff_not, decide_eq_false_iff_not]
      constructor <;> rintro rfl <;> cases hd
    change some ((), (' ' :: d :: (ds ++ '\n' :: rest)).dropWhile isSpace) = _
    rw [List.dropWhile_cons_of_pos rfl, List.dropWhile_cons, hspace]
    rfl
  have hvalue : value depthLimit (d :: (ds ++ '\n' :: rest)) = some (.integer limit, '\n' :: rest) :=
    (value_of_digit hd _ (depthLimit - 1)).trans hscalar
  have hpair : pair (value depthLimit)
      ("max_proof_leaves = ".toList ++ d :: (ds ++ '\n' :: rest)) =
      some (⟨[], "max_proof_leaves", .integer limit⟩, '\n' :: rest) := by
    rw [pair, bind_of_some hkey]
    simp only
    rw [bind_of_some hexpect, bind_of_some hskip, bind_of_some hvalue]
    rfl
  exact line_pair (c := 'm') rfl hpair

/-- **The lines of the settings of a new node** are read. -/
theorem lines_render {limit : Nat} (hlimit : limit < signedLimit) (n : Nat) :
    lines (n + 6) (ofLimit limit).render.toList = some (linesOf limit, []) := by
  rw [toList_render]
  refine lines_of_line (c := '[') (line_server _) ?_
  refine lines_of_line (c := 'm') (line_limit hlimit _) ?_
  rw [lines_of_feed]
  refine lines_of_line (c := '[') (line_journal _) ?_
  exact lines_of_line (c := 'p') line_path rfl

/-- The table that these lines describe. -/
theorem documentOf_linesOf (limit : Nat) : documentOf (linesOf limit) = some [
    ("server", .table .opened [("max_proof_leaves", .integer limit)]),
    ("journal", .table .opened [("path", .text "blocks.jsonl")])] := by
  simp [documentOf, linesOf, addLines, Section.addTo, Members.add, insertAt, inside, Header.place,
    List.lookup_cons]

/-- **The settings of a new node** are read back. -/
theorem parse_render {limit : Nat} (hlimit : limit < signedLimit) :
    parse (ofLimit limit).render = some (ofLimit limit) := by
  have hlength : 5 ≤ (ofLimit limit).render.toList.length := by
    rw [toList_render, List.length_append]
    exact Nat.le_add_right_of_le (by decide)
  -- a step is allowed for each character, which is more than one for each line
  obtain ⟨n, hn⟩ := Nat.exists_eq_add_of_le' hlength
  have hmark : withoutMark (ofLimit limit).render.toList = (ofLimit limit).render.toList := by
    rw [toList_render]
    rfl
  have hlines : (lines ((ofLimit limit).render.toList.length + 1)).run (ofLimit limit).render.toList =
      some (linesOf limit, []) := by
    rw [hn]
    exact lines_render hlimit n
  have hmembers : Toml.parse (ofLimit limit).render = documentOf (linesOf limit) := by
    rw [Toml.parse]
    simp only [hmark, hlines]
    rfl
  rw [parse, hmembers, documentOf_linesOf]
  rfl

end Settings

end BlockLedger
