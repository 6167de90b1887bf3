import CommentFree.Host.Disk
import CommentFree.Host.Memory
import CommentFree.Main
import CommentFree.Proofs.Boundary
import CommentFree.Proofs.Token
import CommentFree.Proofs.Reading
import CommentFree.Proofs.Literal
import CommentFree.Proofs.Memory
import CommentFree.Proofs.Session
import CommentFree.Proofs.Files
import CommentFree.Proofs.Idempotent
import CommentFree.Proofs.Glue
import CommentFree.Proofs.Path
import CommentFree.Proofs.Copy
import CommentFree.Proofs.Script
import CommentFree.Proofs.Patch
import CommentFree.Proofs.Simulation
import CommentFree.Proofs.Commute
import CommentFree.Proofs.Store
import CommentFree.Proofs.Plain
import CommentFree.Proofs.Tree
import CommentFree.Proofs.Mirror
import CommentFree.Proofs.Append
import CommentFree.Proofs.Decode
import CommentFree.Proofs.Sibling
import CommentFree.Proofs.Command
import CommentFree.Proofs.Place
import CommentFree.Proofs.Body
import CommentFree.Proofs.Found
import CommentFree.Proofs.LineByLine
import CommentFree.Proofs.Position
import CommentFree.Proofs.Header
import CommentFree.Proofs.Color
import CommentFree.Proofs.Role
import CommentFree.Proofs.Detection
import CommentFree.Proofs.Validation
import CommentFree.Proofs.Chain
import CommentFree.Proofs.Drawing
import CommentFree.Proofs.Cursor
