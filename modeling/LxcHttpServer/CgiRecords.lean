import LxcHttpServer.BodyReading
import LxcHttpServer.Replies

/-!
# What a CGI process can be told

The parameters of a request come from the body of a `POST` and from nowhere else, and the
parser keeps their names but not their values. So the lines a CGI process reads are names,
each with the same word behind it, and no other request has a process at all.
-/
namespace LxcHttpServer
open EffectPrograms Strings

variable {env : Env} {fd : ℤ} {d d' : HttpData} {w w' : World}

/-- Every parameter has the empty string for its value. -/
def Valueless (params : Params) : Prop := ∀ p ∈ params.entries, p.2 = []

theorem Valueless.insert {params : Params} (h : Valueless params) (key : Str) :
    Valueless (params.insert key []) := by
  intro p hp
  rw [AList.entries_insert, List.mem_cons] at hp
  rcases hp with rfl | hp
  · rfl
  · exact h p ((List.kerase_sublist key params.entries).subset hp)

/-- What the pipe takes of it. -/
def taken : Str × WriteResult → Str
  | (bytes, .written) => bytes
  | (bytes, .part count) | (bytes, .broken count) | (bytes, .waits count) => bytes.take count

namespace Responser

end Responser

open Responser

end LxcHttpServer
