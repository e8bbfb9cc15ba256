import BlockLedger.Command
import BlockLedger.Proofs.Text.Digests

/-!
# Command lines that check a bundle

Words are read one after the other (`Command.Shape.read_cons`), and a word without a dash is the value
for the name in front of it (`Command.Shape.step_value`). So any 64 digits behind the name of the root
are taken as a digest, and any text behind two dashes as the path of the bundle
(`Invocation.parse_verify`).
-/

namespace BlockLedger

namespace Command

variable {α : Type} {g : Shape α} {p p' : Progress α} {s : Slot α} {word : String}

namespace Shape

/-- **One word after the other** is read, unless another command begins with it. -/
theorem read_cons (hverbs : g.verbs = []) (hstep : g.step p word = .ok p') (words : List String) :
    g.read p (word :: words) = g.read p' words := by
  have hbegins : g.begins p word = false := by
    rw [begins, hverbs, List.contains_nil, Bool.and_false]
  rw [read, hbegins, if_neg Bool.false_ne_true, hstep]

/-- **A word without a dash** is the value that the name in front of it waits for. -/
theorem step_value (hword : word.toList.head? ≠ some '-') (htrailing : p.trailing = false)
    (hpending : p.pending = some (s, [])) :
    g.step p word = .ok { p with pending := some (s, [word]) } := by
  rw [step, htrailing, if_neg Bool.false_ne_true]
  split
  · next heq => exact absurd (by rw [heq]; rfl) hword
  · next heq => exact absurd (by rw [heq]; rfl) hword
  · next heq => exact absurd (by rw [heq]; rfl) hword
  · rw [hpending]

end Shape

/-- A value that is read is stored, if it is the first one for its argument. -/
theorem Progress.store_eq_ok {a : α} (hgiven : p.given.contains s.label = false)
    (hread : s.read word p.value = .ok a) :
    p.store s [word] =
      .ok { p with value := a, given := s.label :: p.given, pending := none } := by
  have hall : readAll s p.value [word] = .ok a := by
    rw [readAll, hread]
    rfl
  have hfirst : ¬ (([word] = []) || (!s.many && p.given.contains s.label)) = true := by
    rw [hgiven, Bool.and_false]
    simp
  rw [store, if_neg hfirst, hall]

end Command

namespace Invocation

open Command

/-- The path of a bundle and the root to check it against, as far as they have been read. -/
abbrev Draft := Option String × Option Digest

/-- The argument with a root that is trusted. -/
def rootSlot : Command.Slot Draft :=
  ⟨"--root <HASH>", false, fun s d =>
    match Digest.parse s with
    | .ok trusted => .ok (d.1, some trusted)
    | .error e => .error (some e.message)⟩

/-- The argument with the path of a bundle. -/
def bundleSlot : Command.Slot Draft := anyText "<BUNDLE>" fun s d => (some s, d.2)

/-- What is taken to check a bundle. -/
def verifyShape : Shape Draft where
  named := [("root", .slot rootSlot)]
  positional := some bundleSlot

theorem parse_verifyVerb :
    verifyVerb.parse = readWords verifyShape (none, none) fun d =>
      d.1.map fun bundle => .verify bundle d.2 := rfl

/-- **The words behind the command**: digits as the root, and any text as the path. -/
theorem readWords_verify (file : String) {digits : String} {d : Digest}
    (hdigits : Digest.parse digits = .ok d) (hword : digits.toList.head? ≠ some '-') :
    verifyVerb.parse ["--root", digits, "--", file] = .ok (.verify file (some d)) := by
  -- how far reading has come behind each word
  let named : Progress Draft := ⟨(none, none), [], some (rootSlot, []), false⟩
  let valued : Progress Draft := { named with pending := some (rootSlot, [digits]) }
  let trailing : Progress Draft := { valued with trailing := true }
  let rooted : Progress Draft := ⟨(none, some d), [rootSlot.label], none, true⟩
  let placed : Progress Draft := { rooted with pending := some (bundleSlot, [file]) }
  have hnamed : verifyShape.step ⟨(none, none), [], none, false⟩ "--root" = .ok named := rfl
  have hvalued : verifyShape.step named digits = .ok valued := Shape.step_value hword rfl rfl
  have htrailing : verifyShape.step valued "--" = .ok trailing := rfl
  -- the digits are looked at when the next value comes
  have hsettle : trailing.settle = .ok rooted := by
    refine Progress.store_eq_ok rfl ?_
    rw [rootSlot]
    simp only [hdigits]
    rfl
  have hplace : verifyShape.step trailing file = .ok placed := by
    have hlabel : ¬ rootSlot.label = bundleSlot.label := by decide
    have hgiven : ¬ (!bundleSlot.many && trailing.given.contains bundleSlot.label) = true :=
      Bool.false_ne_true
    have hpending : trailing.pending = some (rootSlot, [digits]) := rfl
    have hpositional : verifyShape.positional = some bundleSlot := rfl
    change verifyShape.place trailing file = .ok placed
    rw [Shape.place, hpositional, hpending]
    simp only
    rw [if_neg hlabel, if_neg hgiven, hsettle]
  rw [parse_verifyVerb, readWords, Shape.read_cons rfl hnamed, Shape.read_cons rfl hvalued,
    Shape.read_cons rfl htrailing, Shape.read_cons rfl hplace]
  rfl

/-- **A command line that checks a bundle** against any 64 digits. -/
theorem parse_verify (s : Surroundings) (file : String) {digits : String} {d : Digest}
    (hdigits : Digest.parse digits = .ok d) (hspells : Digest.Spells digits) :
    parse s ["verify", "--root", digits, "--", file] =
      .ok ⟨defaultHome s, .plain, .verify file (some d)⟩ := by
  have hword : digits.toList.head? ≠ some '-' := by
    intro hdash
    exact absurd (hspells.2 '-' (List.mem_of_head? hdash)) (by decide)
  have hcommand : readCommand "verify" ["--root", digits, "--", file] =
      .ok (.verify file (some d)) := readWords_verify file hdigits hword
  have hshared : sharedShape.read ⟨(none, none), [], none, false⟩
      ["verify", "--root", digits, "--", file] =
        .ok (⟨(none, none), [], none, false⟩, ["verify", "--root", digits, "--", file]) := rfl
  rw [parse, hshared]
  simp only [hcommand]
  rfl

end Invocation

end BlockLedger
