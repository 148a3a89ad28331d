import ConfigShape.Files.Tree
import ConfigShape.Profile.Reader

namespace ConfigShape

inductive LoadFault where
  | unread (path : FilePath) (f : FileFault)
  | profile (f : ProfileFault)

def LoadFault.message : LoadFault → String
  | .unread path f => "failed to read " ++ path ++ ": " ++ f.message
  | .profile f => f.message

namespace Profile

def load (files : Files) (path : FilePath) : Except LoadFault Profile :=
  match files.read path with
  | .error f => .error (.unread path f)
  | .ok bytes => (ofBytes bytes).mapError .profile

def loadNotices (files : Files) (path : FilePath) : List Notice :=
  match files.read path with
  | .error _ => []
  | .ok bytes =>
    ofBytesNotices bytes ++
      match ofBytes bytes with
      | .ok p => [.profileLoaded path p.sections.length]
      | .error _ => []

end Profile

end ConfigShape
