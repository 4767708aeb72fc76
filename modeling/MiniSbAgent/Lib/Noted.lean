import Mathlib.Data.List.Basic

/-!
# Computations that take notes

A `Noted` computation ends with a value or an error, and has noted some things on the way.  What it noted before an
error stays: a log tells what was done, not what was achieved.

* `note`, `bind` — how computations are put together;
* `result_bind`, `mem_bind` — the result and the notes of two parts.
-/

namespace MiniSbAgent.Lib

structure Noted (ν ε α : Type*) where
  notes : List ν
  result : Except ε α

namespace Noted

variable {ν ε α β : Type*}

def ok (a : α) : Noted ν ε α := ⟨[], .ok a⟩

def error (e : ε) : Noted ν ε α := ⟨[], .error e⟩

/-- A note, and then the computation. -/
def note (n : ν) (x : Noted ν ε α) : Noted ν ε α := ⟨n :: x.notes, x.result⟩

def bind (x : Noted ν ε α) (f : α → Noted ν ε β) : Noted ν ε β :=
  match x.result with
  | .error e => ⟨x.notes, .error e⟩
  | .ok a => ⟨x.notes ++ (f a).notes, (f a).result⟩

/-- The computation with its notes written in another way. -/
def mapNotes {μ : Type*} (f : ν → μ) (x : Noted ν ε α) : Noted μ ε α := ⟨x.notes.map f, x.result⟩

def mapError {δ : Type*} (f : ε → δ) (x : Noted ν ε α) : Noted ν δ α := ⟨x.notes, x.result.mapError f⟩

@[simp] theorem notes_ok (a : α) : (ok a : Noted ν ε α).notes = [] := rfl

@[simp] theorem result_ok (a : α) : (ok a : Noted ν ε α).result = .ok a := rfl

@[simp] theorem notes_error (e : ε) : (error e : Noted ν ε α).notes = [] := rfl

@[simp] theorem result_error (e : ε) : (error e : Noted ν ε α).result = .error e := rfl

@[simp] theorem notes_note (n : ν) (x : Noted ν ε α) : (note n x).notes = n :: x.notes := rfl

@[simp] theorem result_note (n : ν) (x : Noted ν ε α) : (note n x).result = x.result := rfl

@[simp] theorem notes_mapNotes {μ : Type*} (f : ν → μ) (x : Noted ν ε α) : (x.mapNotes f).notes = x.notes.map f := rfl

@[simp] theorem result_mapNotes {μ : Type*} (f : ν → μ) (x : Noted ν ε α) : (x.mapNotes f).result = x.result := rfl

@[simp] theorem notes_mapError {δ : Type*} (f : ε → δ) (x : Noted ν ε α) : (x.mapError f).notes = x.notes := rfl

@[simp] theorem result_mapError {δ : Type*} (f : ε → δ) (x : Noted ν ε α) :
    (x.mapError f).result = x.result.mapError f := rfl

section Bind

variable {x : Noted ν ε α} {f : α → Noted ν ε β}

theorem result_bind : (x.bind f).result = x.result.bind fun a => (f a).result := by
  unfold bind
  split <;> rename_i h <;> rw [h] <;> rfl

theorem bind_of_ok {a : α} (h : x.result = .ok a) : x.bind f = ⟨x.notes ++ (f a).notes, (f a).result⟩ := by
  unfold bind
  rw [h]

theorem bind_of_error {e : ε} (h : x.result = .error e) : x.bind f = ⟨x.notes, .error e⟩ := by
  unfold bind
  rw [h]

theorem mem_bind {n : ν} :
    n ∈ (x.bind f).notes ↔ n ∈ x.notes ∨ ∃ a, x.result = .ok a ∧ n ∈ (f a).notes := by
  unfold bind
  split <;> rename_i h <;> simp [h]

/-- A second part that notes nothing. -/
theorem notes_bind_of_nil (h : ∀ a, (f a).notes = []) : (x.bind f).notes = x.notes := by
  unfold bind
  split
  · rfl
  · rename_i a _
    exact (congrArg (x.notes ++ ·) (h a)).trans (List.append_nil _)

end Bind

end Noted

end MiniSbAgent.Lib
