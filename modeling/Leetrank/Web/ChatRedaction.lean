import Leetrank.Library.Delimited
import Leetrank.Library.JsValue
import Leetrank.Playback.Events

namespace Leetrank.Chat
set_option autoImplicit true

open Delimited Js

def fence : JsString := units "```"

def truncatedBlock : JsString := units "```\n<truncated>\n```"

/-- `match.split("\n").length`. -/
def lineCount (text : JsString) : Nat := (text.splitOn 10).length

def redactBlock (block : JsString) : JsString :=
  if 200 < lineCount block then truncatedBlock else block

/-- The blocks are those that the pattern finds: from a fence to the next one behind it. -/
def redactLongCodeBlocks (text : JsString) : JsString := replaceBlocks fence redactBlock text

/-- The code blocks of a text, with their fences. -/
def codeBlocks (text : JsString) : List JsString :=
  (pieces fence text).1.map fun b => fence ++ b.2 ++ fence

/-- The text between the code blocks, and behind the last one. -/
def prose (text : JsString) : List JsString :=
  (pieces fence text).1.map Prod.fst ++ [(pieces fence text).2]

section

variable {text inside : JsString}

theorem fence_ne_nil : fence ≠ [] := by decide

/-- What a block holds after it was redacted. -/
def redactInside (inside : JsString) : JsString :=
  if 200 < lineCount (fence ++ inside ++ fence) then units "\n<truncated>\n" else inside

theorem redactBlock_eq (inside : JsString) :
    redactBlock (fence ++ inside ++ fence) = fence ++ redactInside inside ++ fence := by
  unfold redactBlock redactInside
  split
  next => rfl
  next => rfl

theorem first_redactInside (h : First fence inside) : First fence (redactInside inside) := by
  unfold redactInside
  split
  next => decide
  next => exact h

theorem pieces_redact (text : JsString) : pieces fence (redactLongCodeBlocks text) =
    ((pieces fence text).1.map fun b => (b.1, redactInside b.2), (pieces fence text).2) :=
  pieces_replaceBlocks fence_ne_nil redactBlock_eq (fun _ => first_redactInside) text

theorem lineCount_redactBlock (block : JsString) : lineCount (redactBlock block) ≤ 200 := by
  have htruncated : lineCount truncatedBlock ≤ 200 := by decide
  unfold redactBlock
  split
  next => exact htruncated
  next h => exact Nat.not_lt.1 h

theorem redactBlock_of_short {block : JsString} (h : lineCount block ≤ 200) :
    redactBlock block = block :=
  if_neg (Nat.not_lt.2 h)

theorem codeBlocks_redact (text : JsString) :
    codeBlocks (redactLongCodeBlocks text) = (codeBlocks text).map redactBlock := by
  rw [codeBlocks, codeBlocks, pieces_redact, List.map_map, List.map_map]
  refine List.map_congr_left fun b _ => ?_
  exact (redactBlock_eq b.2).symm

theorem redact_of_short (h : ∀ b ∈ codeBlocks text, lineCount b ≤ 200) :
    redactLongCodeBlocks text = text :=
  replaceBlocks_eq_self fence_ne_nil fun _ hb =>
    redactBlock_of_short (h _ (List.mem_map_of_mem (f := fun b => fence ++ b.2 ++ fence) hb))

/-- Of every message the code blocks of more than 200 lines are replaced, and nothing else: the
other blocks and all the text between them stay as they are, no block that is left is longer, and
redacting again changes nothing. -/
theorem redactLongCodeBlocks_spec (text : JsString) :
    prose (redactLongCodeBlocks text) = prose text ∧
    codeBlocks (redactLongCodeBlocks text) = (codeBlocks text).map redactBlock ∧
    (∀ b ∈ codeBlocks (redactLongCodeBlocks text), lineCount b ≤ 200) ∧
    (redactLongCodeBlocks text = text ↔ ∀ b ∈ codeBlocks text, lineCount b ≤ 200) ∧
    redactLongCodeBlocks (redactLongCodeBlocks text) = redactLongCodeBlocks text := by
  have hshort : ∀ b ∈ codeBlocks (redactLongCodeBlocks text), lineCount b ≤ 200 := by
    intro b hb
    rw [codeBlocks_redact] at hb
    obtain ⟨b, -, rfl⟩ := List.mem_map.1 hb
    exact lineCount_redactBlock b
  refine ⟨?_, codeBlocks_redact text, hshort, ⟨fun h => ?_, redact_of_short⟩,
    redact_of_short hshort⟩
  · rw [prose, prose, pieces_redact, List.map_map]
    rfl
  · rw [h] at hshort
    exact hshort

end

end Leetrank.Chat
