import TextTemplate.Render
import TextTemplate.Settings.Sources
import TextTemplate.Proofs.OnePass
import TextTemplate.Proofs.Exclusive
import TextTemplate.Proofs.Linked
import TextTemplate.Proofs.Passes
import TextTemplate.Proofs.Sessions
import TextTemplate.Proofs.Scope.Lookup
import TextTemplate.Proofs.Brackets
import TextTemplate.Proofs.Errors
import TextTemplate.Proofs.Items
import TextTemplate.Proofs.Walk
import TextTemplate.Proofs.Escaping
import TextTemplate.Proofs.Hidden
import TextTemplate.Proofs.Roots
import TextTemplate.Proofs.Absent
import TextTemplate.Proofs.Lenient
import TextTemplate.Proofs.Inlined
import TextTemplate.Proofs.PassedText
import TextTemplate.Proofs.Unmentioned
import TextTemplate.Proofs.Spelling
import TextTemplate.Proofs.Marked
import TextTemplate.Proofs.Scope.Frozen
import TextTemplate.Proofs.Course.Returns
import TextTemplate.Proofs.Shape
import TextTemplate.Proofs.Evaluation
import TextTemplate.Proofs.Scope.Unread
import TextTemplate.Proofs.Scope.Paths
import TextTemplate.Proofs.Text.Capitals
import TextTemplate.Proofs.Number.Layout
import TextTemplate.Proofs.Number.Grouping
import TextTemplate.Proofs.Settings
import TextTemplate.Proofs.Json
