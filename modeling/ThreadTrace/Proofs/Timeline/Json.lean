import ThreadTrace.Proofs.Capture.Spool
import ThreadTrace.Timeline.Json

/-!
# ThreadTrace.Proofs.Timeline.Json — how much of the text is seen to be written

On a disk of limited room the file ends up with as much of the text as there is room for
(`exportTo_create`).  Whether anybody is told depends on less: on the bytes that are put onto the
disk before the file is let go (`sent`).  Those are all but the last few, and of a short text none.
-/

namespace ThreadTrace.Timeline

variable {f : SpoolFile}

theorem bytes_join (fragments : List String) :
    Text.bytes (String.join fragments) = fragments.flatMap Text.bytes := by
  rw [Text.bytes, String.toList_join, List.flatMap_assoc]
  rfl

/-- The bytes of a text are those of its fragments. -/
theorem bytes_json (t : Timeline) : Text.bytes t.json = t.fragments.flatMap Text.bytes :=
  bytes_join t.fragments

theorem writeFragments_cons (fragment : String) (rest : List String) (f : SpoolFile) :
    writeFragments (fragment :: rest) f =
      SpoolFile.andThen (SpoolFile.write · (Text.bytes fragment)) (writeFragments rest) f := by
  have hwrite : Destination.write f (Text.bytes fragment) = f.write (Text.bytes fragment) := rfl
  rw [writeFragments, hwrite, SpoolFile.andThen]
  rcases f.write (Text.bytes fragment) with ⟨_ | _, f'⟩ <;> rfl

theorem writeFragments_brings (h : f.disk.room = none) (fragments : List String) :
    ∃ f', SpoolFile.Brings (writeFragments fragments) f (fragments.flatMap Text.bytes) f' := by
  induction fragments generalizing f with
  | nil => exact ⟨f, .refl h⟩
  | cons fragment rest ih =>
    obtain ⟨f₁, h₁⟩ := SpoolFile.write_brings h (Text.bytes fragment)
    obtain ⟨f₂, h₂⟩ := ih h₁.room_eq
    rw [List.flatMap_cons]
    exact ⟨f₂, (h₁.trans h₂).congr (writeFragments_cons fragment rest f) fun room =>
      writeFragments_cons fragment rest (f.within room)⟩

/-- A text that is shorter than what can be held does not get onto the disk. -/
theorem writeFragments_of_lt {fragments : List String}
    (h : f.held.length + (fragments.flatMap Text.bytes).length < SpoolFile.capacity) :
    writeFragments fragments f =
      (.ok (), { f with held := f.held ++ fragments.flatMap Text.bytes }) := by
  induction fragments generalizing f with
  | nil => simp [writeFragments]
  | cons fragment rest ih =>
    rw [List.flatMap_cons, List.length_append] at h
    have hfit : f.held.length + (Text.bytes fragment).length ≤ SpoolFile.capacity := by omega
    have hshort : ¬ SpoolFile.capacity ≤ (Text.bytes fragment).length := by omega
    have hwrite : f.write (Text.bytes fragment) =
        (.ok (), { f with held := f.held ++ Text.bytes fragment }) := by
      rw [SpoolFile.write, if_pos hfit, SpoolFile.accept, if_neg hshort]
    have hrest := ih (f := { f with held := f.held ++ Text.bytes fragment }) <| by
      rw [List.length_append]
      omega
    rw [writeFragments_cons, SpoolFile.andThen_of_ok hwrite, hrest, List.flatMap_cons,
      List.append_assoc]

/-! ### The whole text -/

/-- The bytes that are put onto a disk before the file is let go, if there is room for them. -/
def sent (t : Timeline) : Nat := (writeFragments t.fragments (SpoolFile.create none)).2.sent

/-- Where there is room for it the text is written, and so much of it gets onto the disk. -/
theorem exists_brings (t : Timeline) :
    ∃ f, SpoolFile.Brings (writeFragments t.fragments) (.create none) (Text.bytes t.json) f ∧
      f.text = Text.bytes t.json ∧ f.sent = t.sent := by
  have hcreate : (SpoolFile.create none).disk.room = none := rfl
  have hnone : (SpoolFile.create none).text = [] := rfl
  obtain ⟨f, hf⟩ := writeFragments_brings hcreate t.fragments
  rw [← bytes_json] at hf
  refine ⟨f, hf, ?_, ?_⟩
  · rw [hf.text_eq, hnone, List.nil_append]
  · rw [sent, hf.unlimited]

theorem sent_le (t : Timeline) : t.sent ≤ (Text.bytes t.json).length := by
  obtain ⟨f, -, htext, hsent⟩ := t.exists_brings
  rw [← htext, ← hsent]
  exact f.sent_le

/-- No more is left for the end than can be held. -/
theorem length_le_sent (t : Timeline) :
    (Text.bytes t.json).length ≤ t.sent + SpoolFile.capacity := by
  obtain ⟨f, hf, htext, hsent⟩ := t.exists_brings
  have hheld := hf.held_le (Nat.zero_le _)
  rw [← htext, ← hsent, SpoolFile.text, List.length_append, SpoolFile.sent]
  omega

/-- Of a short text all is left for the end. -/
theorem sent_eq_zero {t : Timeline} (h : (Text.bytes t.json).length < SpoolFile.capacity) :
    t.sent = 0 := by
  rw [bytes_json] at h
  have hheld : (SpoolFile.create none).held.length + (t.fragments.flatMap Text.bytes).length <
      SpoolFile.capacity := by
    rw [SpoolFile.create, List.length_nil, Nat.zero_add]
    exact h
  rw [sent, writeFragments_of_lt hheld]
  rfl

/-- **What is written, and what is told of it.** -/
theorem exportTo_create (t : Timeline) (room : Room) :
    (t.exportTo (SpoolFile.create (some room))).1 =
        (if t.sent ≤ room.bytes then .ok () else .error room.refusal) ∧
      (t.exportTo (SpoolFile.create (some room))).2.disk.contents =
        (Text.bytes t.json).take room.bytes := by
  obtain ⟨f, hf, htext, hsent⟩ := t.exists_brings
  have hcreate : SpoolFile.create (some room) = (SpoolFile.create none).within room := rfl
  rw [exportTo, hcreate]
  by_cases hle : t.sent ≤ room.bytes
  · rw [hf.accepted (hsent ▸ hle), if_pos hle, ← htext]
    exact ⟨rfl, SpoolFile.contents_release_within (hsent ▸ hle)⟩
  · obtain ⟨g, hwrite, hdisk⟩ := hf.refused (Nat.zero_le _) (hsent ▸ Nat.lt_of_not_le hle)
    rw [hwrite, if_neg hle, ← htext]
    exact ⟨rfl, SpoolFile.contents_release_full hdisk⟩

end ThreadTrace.Timeline
